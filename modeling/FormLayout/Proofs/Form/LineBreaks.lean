import FormLayout.Proofs.Form.Refusal
/-!
Where a new line break comes to stand. It is in the map before its position is looked at, so a
position relative to its own id is taken for a move of a node to itself, and leaves the line break
in no list. At any other position it is put into one list, or is taken out of the map again.
-/

namespace FormLayout
set_option autoImplicit true

theorem NodeKind.container_of_canContain {k c : NodeKind} (h : k.canContain c = true) :
    k = .tab ∨ k = .palette := by
  cases k with
  | tab => exact .inl rfl
  | palette => exact .inr rfl
  | field => cases h
  | lineBreak => cases h

namespace FormTree

/-- A tree has one more line break than another one, at a place in one of its containers. All else
is as it was. -/
structure Gains (t u : FormTree) (id : String) (container : Option String) (a : Anchor) : Prop where
  fresh : t.node? id = none
  self : u.node? id = some { Node.fresh id .lineBreak with parent := container }
  held : ∃ p m, container = some p ∧ u.node? p = some m ∧ (m.kind = .tab ∨ m.kind = .palette)
  holds : a.Holds id (u.siblings container)
  once : (u.siblings container).count id = 1
  only : ∀ c, c ≠ container → id ∉ u.siblings c
  order : ∀ c, (u.siblings c).filter (· ≠ id) = t.siblings c
  others : ∀ x, x ≠ id → u.node? x =
    (t.node? x).map fun m => { m with children := u.siblings (some x) }
  walked : (u.walk.map Node.id).count id = 1
  consistent : u.Consistent

namespace Adds

variable {t s : FormTree} {id : String}

theorem siblings (h : t.Adds s id) (c : Option String) : s.siblings c = t.siblings c := by
  cases c with
  | none => exact h.tabs
  | some x =>
    rw [FormTree.siblings, FormTree.siblings, h.node?]
    split
    · next hx =>
      rw [hx, h.fresh]
      rfl
    · rfl

theorem names (h : t.Adds s id) (hs : s.Names kind position c a)
    (hp : position.target? ≠ some id) : t.Names kind position c a := by
  have hne {target} (ht : position.target? = some target) : target ≠ id := by
    rintro rfl
    exact hp ht
  cases hs with
  | lastTab hk => exact .lastTab hk
  | inLastTab hk hlast => exact .inLastTab hk (h.tabs ▸ hlast)
  | top => exact .top
  | bottom => exact .bottom
  | before hm => exact .before (h.node?_of_ne (hne rfl) ▸ hm)
  | after hm => exact .after (h.node?_of_ne (hne rfl) ▸ hm)

/-- The first tab has the same number when a line break is in the map already. -/
theorem ensureTab {loose : String → Prop} (h : t.Adds s (lineBreakId k))
    (ht : t.Linked fun _ => False) (hs : s.Linked loose)
    (hlabel : s.defaultTabLabel = t.defaultTabLabel) :
    t.ensureTab.1.Adds s.ensureTab.1 (lineBreakId k) := by
  by_cases htabs : t.tabs = []
  · have hzero : lineBreakId k ≠ toString 0 := (toString_ne_lineBreakId 0 k).symm
    have hnone := ht.node?_of_nil htabs
    have hnone' : s.node? (toString 0) = none := by rw [h.node?_of_ne hzero.symm, hnone]
    have hid := nextTabId_of_nil htabs (hnone _)
    have hid' := nextTabId_of_nil (h.tabs.trans htabs) hnone'
    rw [ensureTab_of_nil htabs, ensureTab_of_nil (h.tabs.trans htabs), hid, hid', hlabel]
    constructor
    case fresh => rw [node?_update, if_neg hzero, ht.node?_attachTab (hnone _), if_neg hzero, hnone]
    case tabs =>
      rw [tabs_update, tabs_update, hs.tabs_attachTab hnone', ht.tabs_attachTab (hnone _), h.tabs]
    case node? =>
      intro x
      rw [node?_update, node?_update, hs.node?_attachTab hnone', ht.node?_attachTab (hnone _),
        h.node?]
      by_cases hx : x = toString 0
      · rw [if_pos hx, if_pos hx, if_pos hx, if_pos hx, if_neg (hx ▸ hzero.symm)]
      · rw [if_neg hx, if_neg hx, if_neg hx, if_neg hx]
  · rw [ensureTab_of_ne_nil htabs, ensureTab_of_ne_nil (h.tabs ▸ htabs)]
    exact h

/-- The line break was put into a list. -/
theorem gains (h : t.Adds s id) (ht : t.Linked fun _ => False)
    (hu : u.Linked fun _ => False) (hm : s.Moved u id c a) : t.Gains u id c a := by
  have hself : u.node? id = some { Node.fresh id .lineBreak with parent := c } := by
    obtain ⟨n, hn, hnu⟩ := hm.self
    cases h.self.symm.trans hn
    exact hnu
  have hfresh (x : Option String) : id ∉ t.siblings x := by
    cases x with
    | none => exact ht.not_mem_tabs_of_fresh h.fresh
    | some x =>
      rw [FormTree.siblings]
      cases hx : t.node? x with
      | none => exact List.not_mem_nil
      | some n => exact ht.not_mem_children_of_fresh h.fresh hx
  constructor
  case fresh => exact h.fresh
  case self => exact hself
  case held =>
    cases c with
    | none => exact absurd (((hu.rooted hself).1 rfl).resolve_left not_false) NodeKind.noConfusion
    | some p =>
      obtain ⟨m, hp, hc, _⟩ := hu.held hself rfl
      exact ⟨p, m, rfl, hp, NodeKind.container_of_canContain hc⟩
  case holds => exact hm.holds
  case once => exact hm.once
  case only => exact hm.only
  case order =>
    intro x
    rw [hm.order, h.siblings, filter_ne_eq_self (hfresh x)]
  case others =>
    intro x hx
    rw [hm.others x hx, h.node?_of_ne hx]
  case walked =>
    have hmem := hu.walk_perm.mem_iff.2 (List.mem_map_of_mem (Entries.mem_of_get? hself))
    exact List.count_eq_one_of_mem hu.nodup_walk (List.mem_map_of_mem (f := Node.id) hmem)
  case consistent => exact hu.toConsistent

end Adds

theorem place_missing {t : FormTree} {id : String} (hn : t.node? id = some n)
    (hp : position.target? = some target) (hm : t.node? target = none) :
    t.place id position = .error (.nodeNotFound target) := by
  have hne : position.target? ≠ some id := by
    rw [hp]
    rintro ⟨rfl⟩
    cases hm.symm.trans hn
  rw [place, hn]
  dsimp only
  rw [if_neg hne]
  cases position with
  | default => cases hp
  | top | bottom =>
    cases hp
    simp [containerInside, hm, Except.map]
  | before | after =>
    cases hp
    simp [containerBeside, hm, Except.map]

theorem lineBreak_missing {t : FormTree} (hp : position.target? = some target)
    (hm : t.node? target = none) (hne : target ≠ lineBreakId t.nextLineBreak) :
    t.lineBreak position =
      ({ t with lineBreaks := t.nextLineBreak }, .error (.nodeNotFound target)) := by
  have hadds := t.adds_lineBreak
  rw [lineBreak, place_missing hadds.self hp ((hadds.node?_of_ne hne).trans hm)]

/-- A position relative to the id of the new line break is taken for a place that it has already. -/
theorem lineBreak_self {t : FormTree} (hp : position.target? = some (lineBreakId t.nextLineBreak)) :
    t.lineBreak position = ({ t with lineBreaks := t.nextLineBreak }.insertNode
      (lineBreakId t.nextLineBreak) .lineBreak, .ok (lineBreakId t.nextLineBreak)) := by
  rw [lineBreak, place, t.adds_lineBreak.self]
  dsimp only
  rw [if_pos hp]

theorem Linked.gains_lineBreak {t : FormTree} (h : t.Linked fun _ => False) {id : String}
    (hu : t.lineBreak position = (u, .ok id)) (hne : position.target? ≠ some id) :
    ∃ c a, t.ensureTab.1.Names .lineBreak position c a ∧ t.ensureTab.1.Gains u id c a := by
  have htarget {target} (hp : position.target? = some target) : t.node? target ≠ none := by
    intro hm
    obtain ⟨rfl, _⟩ := lineBreak_ok_cases hu
    rw [lineBreak_missing hp hm fun he => hne (he ▸ hp)] at hu
    cases hu
  obtain ⟨rfl, hplace⟩ := lineBreak_ok_cases hu
  have hlinked := h.insert_lineBreak
  have hu' : u.Linked fun _ => False := by
    refine (hlinked.place hplace).congr fun x => iff_of_false ?_ not_false
    rintro ⟨rfl | hloose, hself⟩
    · exact hne (hself rfl)
    · exact hloose
  obtain ⟨s, n, c, a, hs, hn, hnames, hmoved⟩ := hlinked.moved_place_loose hplace hne
    fun target hp hl => hl.elim (fun he => hne (he ▸ hp)) id
  have hadds := t.adds_lineBreak
  cases hadds.self.symm.trans hn
  have hs' : t.ensureTab.1.Adds s (lineBreakId t.nextLineBreak) := by
    by_cases htabs : t.tabs = []
    · rcases hs with rfl | ⟨_, rfl⟩
      -- A tree without tabs has no nodes either, so only the default position is left.
      · cases hnames with
        | lastTab hk => cases hk
        | inLastTab _ hlast =>
          rw [hadds.tabs, htabs] at hlast
          cases hlast
        | top => exact absurd (h.node?_of_nil htabs _) (htarget rfl)
        | bottom => exact absurd (h.node?_of_nil htabs _) (htarget rfl)
        | before => exact absurd (h.node?_of_nil htabs _) (htarget rfl)
        | after => exact absurd (h.node?_of_nil htabs _) (htarget rfl)
      · exact hadds.ensureTab h hlinked rfl
    · rcases hs with rfl | ⟨_, rfl⟩
      · rw [ensureTab_of_ne_nil htabs]
        exact hadds
      · exact hadds.ensureTab h hlinked rfl
  exact ⟨c, a, hs'.names hnames hne, hs'.gains h.ensureTab hu' hmoved⟩

/-- A new line break is refused, and then all nodes and tabs are as before, or it is added at the
place that its position names; a tree without tabs gets its first tab for it. If the position refers
to the id that the line break is about to get, it is added to no list instead. A position that
refers to any other missing node is refused. -/
theorem Consistent.lineBreak_placed {t : FormTree} (h : t.Consistent) (text : String) :
    (∀ position target, Position.parse text = .ok position → position.target? = some target →
      t.node? target = none → target ≠ lineBreakId t.nextLineBreak →
        ∃ u, t.run (.lineBreak text []) = (u, .error (.nodeNotFound target))) ∧
    ((∃ u e, t.run (.lineBreak text []) = (u, .error e) ∧ u.tabs = t.tabs ∧ u.nodes = t.nodes) ∨
      ∃ u position, t.run (.lineBreak text []) = (u, .ok (.id (lineBreakId t.nextLineBreak))) ∧
        Position.parse text = .ok position ∧
        (position.target? ≠ some (lineBreakId t.nextLineBreak) → ∃ container a,
          t.ensureTab.1.Names .lineBreak position container a ∧
            t.ensureTab.1.Gains u (lineBreakId t.nextLineBreak) container a) ∧
        (position.target? = some (lineBreakId t.nextLineBreak) →
          t.Adds u (lineBreakId t.nextLineBreak))) := by
  cases hparse : Position.parse text with
  | error e =>
    constructor
    · intro position target hp
      cases hp
    · exact .inl ⟨t, e, by rw [run, hparse], rfl, rfl⟩
  | ok position =>
    have hrun (u : FormTree) (r : Except Error String) (hl : t.lineBreak position = (u, r)) :
        t.run (.lineBreak text []) = (u, r.map .id) := by
      rw [run, hparse]
      dsimp only
      rw [hl]
      cases r <;> rfl
    constructor
    · rintro _ target ⟨rfl⟩ hp hm hne
      exact ⟨_, hrun _ _ (lineBreak_missing hp hm hne)⟩
    · cases hl : t.lineBreak position with
      | mk u r =>
        cases r with
        | error e =>
          obtain rfl := lineBreak_error_cases hl
          exact .inl ⟨_, e, hrun _ _ hl, rfl, rfl⟩
        | ok id =>
          obtain ⟨rfl, _⟩ := lineBreak_ok_cases hl
          refine .inr ⟨u, position, hrun _ _ hl, rfl, h.linked.gains_lineBreak hl, ?_⟩
          intro hp
          cases (lineBreak_self hp).symm.trans hl
          exact t.adds_lineBreak

/-- In a tree without nodes the line break is put into the first tab, which is added on the way. -/
theorem lineBreak_placed_in_empty : ∃ u, (empty "general").run (.lineBreak "" []) =
    (u, .ok (.id "--linebreak-1--")) ∧ ∃ container a,
      (empty "general").ensureTab.1.Gains u "--linebreak-1--" container a := by
  obtain ⟨_, hline⟩ := Consistent.lineBreak_placed (Linked.empty "general").toConsistent ""
  have hparse : Position.parse "" = .ok .default := rfl
  rcases hline with ⟨u, e, hrun, _⟩ | ⟨u, position, hrun, hp, hgains, _⟩
  · have hnodes : (empty "general").run (.lineBreak "" []) = (_, .ok (.id "--linebreak-1--")) := rfl
    cases hnodes.symm.trans hrun
  · cases hparse.symm.trans hp
    obtain ⟨container, a, _, hg⟩ := hgains (by simp [Position.target?])
    exact ⟨u, hrun, container, a, hg⟩

/-- The first line break has the id that its position refers to, and is put into no list. -/
theorem lineBreak_before_itself : ∃ u n, Position.parse "before:--linebreak-1--" =
      .ok (.before "--linebreak-1--") ∧ (empty "general").node? "--linebreak-1--" = none ∧
    (empty "general").run (.lineBreak "before:--linebreak-1--" []) =
      (u, .ok (.id "--linebreak-1--")) ∧
    u.node? "--linebreak-1--" = some n ∧ n.kind = .lineBreak ∧ n.parent = none ∧
    u.walk = [] :=
  ⟨_, _, rfl, rfl, rfl, rfl, rfl, rfl, rfl⟩

end FormTree

end FormLayout
