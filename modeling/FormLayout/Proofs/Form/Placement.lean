import FormLayout.Proofs.Form.Consistency
/-!
Where a move puts a node: beside its target, at one end of it, or at the default place. Every other
node stays where it was, and so does the order of all the others in each list.
-/

namespace FormLayout
set_option autoImplicit true

namespace Anchor

/-- The sibling that a place refers to. -/
def sibling? : Anchor → Option String
  | .first | .last => none
  | .before sibling | .after sibling => some sibling

/-- An id stands at the place in a list. -/
def Holds (id : String) (l : List String) : Anchor → Prop
  | .first => ∃ rest, l = id :: rest
  | .last => ∃ front, l = front ++ [id]
  | .before sibling => ∃ front rest, l = front ++ id :: sibling :: rest
  | .after sibling => ∃ front rest, l = front ++ sibling :: id :: rest

theorem insertBefore_of_mem (h : sibling ∈ l) (id : String) : ∃ front rest,
    l = front ++ sibling :: rest ∧ insertBefore sibling id l = front ++ id :: sibling :: rest := by
  induction l with
  | nil => cases h
  | cons x l ih =>
    rw [insertBefore]
    split
    · next hx =>
      subst hx
      exact ⟨[], l, rfl, rfl⟩
    · next hx =>
      obtain ⟨front, rest, hl, hi⟩ := ih ((List.mem_cons.1 h).resolve_left (Ne.symm hx))
      exact ⟨x :: front, rest, congrArg (x :: ·) hl, congrArg (x :: ·) hi⟩

theorem insertAfter_of_mem (h : sibling ∈ l) (id : String) : ∃ front rest,
    l = front ++ sibling :: rest ∧ insertAfter sibling id l = front ++ sibling :: id :: rest := by
  induction l with
  | nil => cases h
  | cons x l ih =>
    rw [insertAfter]
    split
    · next hx =>
      subst hx
      exact ⟨[], l, rfl, rfl⟩
    · next hx =>
      obtain ⟨front, rest, hl, hi⟩ := ih ((List.mem_cons.1 h).resolve_left (Ne.symm hx))
      exact ⟨x :: front, rest, congrArg (x :: ·) hl, congrArg (x :: ·) hi⟩

theorem holds_insert {a : Anchor} (id : String) (h : ∀ s, a.sibling? = some s → s ∈ l) :
    a.Holds id (a.insert id l) := by
  cases a with
  | first => exact ⟨l, rfl⟩
  | last => exact ⟨l, rfl⟩
  | before sibling =>
    obtain ⟨front, rest, _, hi⟩ := insertBefore_of_mem (h sibling rfl) id
    exact ⟨front, rest, hi⟩
  | after sibling =>
    obtain ⟨front, rest, _, hi⟩ := insertAfter_of_mem (h sibling rfl) id
    exact ⟨front, rest, hi⟩

theorem filter_insertBefore (sibling id : String) (l : List String) :
    (insertBefore sibling id l).filter (· ≠ id) = l.filter (· ≠ id) := by
  induction l with
  | nil => simp [insertBefore]
  | cons x l ih =>
    rw [insertBefore]
    split
    · simp
    · rw [List.filter_cons, List.filter_cons, ih]

theorem filter_insertAfter (sibling id : String) (l : List String) :
    (insertAfter sibling id l).filter (· ≠ id) = l.filter (· ≠ id) := by
  induction l with
  | nil => simp [insertAfter]
  | cons x l ih =>
    rw [insertAfter]
    split
    · simp [List.filter_cons]
    · rw [List.filter_cons, List.filter_cons, ih]

/-- An insertion does not change the order of the others. -/
theorem filter_insert (a : Anchor) (id : String) (l : List String) :
    (a.insert id l).filter (· ≠ id) = l.filter (· ≠ id) := by
  cases a with
  | first => simp [insert]
  | last => simp [insert]
  | before sibling => exact filter_insertBefore sibling id l
  | after sibling => exact filter_insertAfter sibling id l

end Anchor

namespace FormTree

/-- The children of a container, or the tabs. -/
def siblings (t : FormTree) : Option String → List String
  | none => t.tabs
  | some p => ((t.node? p).map Node.children).getD []

/-- The list that a position names for a node of some kind, and the place in this list. -/
inductive Names (t : FormTree) (kind : NodeKind) : Position → Option String → Anchor → Prop where
  | lastTab : kind = .tab → Names t kind .default none .last
  | inLastTab : kind ≠ .tab → t.tabs.getLast? = some x → Names t kind .default (some x) .last
  | top : Names t kind (.top target) (some target) .first
  | bottom : Names t kind (.bottom target) (some target) .last
  | before : t.node? target = some m → Names t kind (.before target) m.parent (.before target)
  | after : t.node? target = some m → Names t kind (.after target) m.parent (.after target)

/-- One node was put at a place, and nothing else changed. -/
structure Moved (t u : FormTree) (id : String) (container : Option String) (a : Anchor) :
    Prop where
  self : ∃ n, t.node? id = some n ∧ u.node? id = some { n with parent := container }
  holds : a.Holds id (u.siblings container)
  once : (u.siblings container).count id = 1
  only : ∀ c, c ≠ container → id ∉ u.siblings c
  order : ∀ c, (u.siblings c).filter (· ≠ id) = (t.siblings c).filter (· ≠ id)
  others : ∀ x, x ≠ id → u.node? x =
    (t.node? x).map fun m => { m with children := u.siblings (some x) }
  defaultTabLabel : u.defaultTabLabel = t.defaultTabLabel
  lineBreaks : u.lineBreaks = t.lineBreaks

theorem siblings_of_node? {t : FormTree} (hx : t.node? x = some n) :
    t.siblings (some x) = n.children := by
  rw [siblings, hx]
  rfl

theorem containerInside_eq {t : FormTree} (hc : t.containerInside kind target = .ok c) :
    c = some target := by
  rw [containerInside] at hc
  split at hc
  · cases hc
  · split at hc
    · exact (Except.ok.inj hc).symm
    · cases hc

theorem containerBeside_eq {t : FormTree} (hc : t.containerBeside kind sibling = .ok c) :
    ∃ m, t.node? sibling = some m ∧ c = m.parent := by
  rw [containerBeside] at hc
  split at hc
  · cases hc
  · next m hm =>
    apply Exists.intro m
    apply And.intro hm
    split at hc
    · next p hp => rw [hp, containerInside_eq hc]
    · next hp =>
      split at hc
      · rw [hp, ← Except.ok.inj hc]
      · cases hc

namespace Linked

variable {t u : FormTree} {loose : String → Prop}

theorem siblings_relocate (h : t.Linked loose) {id : String} (hn : t.node? id = some n)
    (hc : t.Admits c n.kind) (a : Anchor) (c' : Option String) :
    (t.relocate id c a).siblings c' =
      if c = c' then a.insert id ((t.siblings c').filter (· ≠ id))
      else (t.siblings c').filter (· ≠ id) := by
  cases c' with
  | none => exact h.tabs_relocate id c a
  | some x =>
    rw [siblings, siblings, h.node?_relocate hn hc]
    cases hx : t.node? x with
    | none =>
      have hne : c ≠ some x := by
        rintro rfl
        obtain ⟨m, hm, _⟩ := hc
        cases hx.symm.trans hm
      rw [if_neg hne]
      rfl
    | some m =>
      have hm : m.id = x := h.keyed hx
      rw [Option.map_some, Option.map_some, Option.map_some, Option.getD_some, Option.getD_some,
        Node.moved, Node.children_held, Node.children_taken, Node.id_taken, hm]

/-- Taking a node out of its list and putting it into another one. -/
theorem moved_relocate (h : t.Linked loose) {id : String} (hn : t.node? id = some n)
    (hc : t.Admits c n.kind) {a : Anchor}
    (ha : ∀ s, a.sibling? = some s → s ∈ t.siblings c ∧ s ≠ id) :
    t.Moved (t.relocate id c a) id c a := by
  have hlist := h.siblings_relocate hn hc a
  have hnode := h.node?_relocate hn hc a
  have hself : n.id = id := h.keyed hn
  have hgone (l : List String) : id ∉ l.filter (· ≠ id) := by simp
  constructor
  case self =>
    have hown : id ∉ n.children := by
      intro hm
      obtain ⟨k, hk, hp⟩ := h.listed hn hm
      exact h.ne_of_parent hk hp rfl
    have hne : c ≠ some id := by
      rintro rfl
      obtain ⟨m, hm, hmk⟩ := hc
      cases hn.symm.trans hm
      exact Nat.lt_irrefl _ (NodeKind.height_lt_of_canContain hmk)
    apply Exists.intro n
    apply And.intro hn
    rw [hnode, hn, Option.map_some, Node.moved, Node.taken_of_not_mem hown, Node.held]
    dsimp only
    rw [hself, if_pos rfl, if_neg hne]
  case holds =>
    rw [hlist, if_pos rfl]
    apply Anchor.holds_insert
    intro s hs
    obtain ⟨hm, hne⟩ := ha s hs
    exact List.mem_filter.2 ⟨hm, decide_eq_true hne⟩
  case once =>
    rw [hlist, if_pos rfl, (a.insert_perm id _).count_eq, List.count_cons_self,
      List.count_eq_zero_of_not_mem (hgone _)]
  case only =>
    intro c' hne
    rw [hlist, if_neg (Ne.symm hne)]
    exact hgone _
  case order =>
    intro c'
    rw [hlist]
    split
    · rw [Anchor.filter_insert, List.filter_filter]
      simp
    · rw [List.filter_filter]
      simp
  case others =>
    intro x hx
    rw [hnode, siblings, hnode]
    cases hm : t.node? x with
    | none => rfl
    | some m =>
      have hne : m.id ≠ id := h.keyed hm ▸ hx
      rw [Option.map_some, Option.map_some, Option.map_some, Option.getD_some, Node.moved,
        Node.held, Node.taken]
      dsimp only
      rw [if_neg hne, if_neg hne]
  case defaultTabLabel => exact defaultTabLabel_relocate t id c a
  case lineBreaks => exact lineBreaks_relocate t id c a

/-- A node stands in the list of its parent, and a tab among the tabs. -/
theorem mem_siblings (h : t.Linked loose) {id : String} (hn : t.node? id = some n)
    (hl : ¬ loose id) : id ∈ t.siblings n.parent := by
  cases hp : n.parent with
  | none =>
    have hk := ((h.rooted hn).1 hp).resolve_left hl
    exact h.mem_tabs.2 ⟨hl, n, hn, hk⟩
  | some p =>
    obtain ⟨m, hm, _, hmem⟩ := h.held hn hp
    rw [siblings_of_node? hm]
    exact hmem

theorem moved_toDefault_tab (h : t.Linked loose) {id : String} (hn : t.node? id = some n)
    (hk : n.kind = .tab) : t.Moved (t.moveToDefault id n.kind) id none .last := by
  rw [FormTree.moveToDefault, if_pos hk]
  exact h.moved_relocate (c := none) hn hk (by simp [Anchor.sibling?])

theorem moved_toLastTab (h : t.Linked loose) {id : String} (hn : t.node? id = some n)
    (hk : n.kind ≠ .tab) :
    t.ensureTab.1.Moved (t.moveToDefault id n.kind) id (some t.ensureTab.2) .last := by
  rw [moveToDefault_of_ne_tab hk]
  exact h.ensureTab.moved_relocate (h.node?_ensureTab hn) (h.admits_ensureTab hk)
    (by simp [Anchor.sibling?])

theorem moved_toDefault (h : t.Linked loose) {id : String} (hn : t.node? id = some n)
    (hk : n.kind ≠ .tab) (hlast : t.tabs.getLast? = some x) :
    t.Moved (t.moveToDefault id n.kind) id (some x) .last := by
  have hmoved := h.moved_toLastTab hn hk
  rwa [ensureTab_of_mem hlast] at hmoved

theorem moved_beside (h : t.Linked loose) {id : String} (hn : t.node? id = some n)
    (hc : t.Admits m.parent n.kind) (hm : t.node? target = some m) (hl : ¬ loose target)
    (hne : target ≠ id) {a : Anchor} (ha : a.sibling? = some target) :
    t.Moved (t.relocate id m.parent a) id m.parent a := by
  apply h.moved_relocate hn hc
  intro s hs
  cases ha.symm.trans hs
  exact ⟨h.mem_siblings hm hl, hne⟩

theorem getLast?_ensureTab (h : t.Linked loose) :
    t.ensureTab.1.tabs.getLast? = some t.ensureTab.2 := by
  cases ht : t.tabs.getLast? with
  | some tab =>
    rw [ensureTab_of_mem ht]
    exact ht
  | none =>
    rw [ensureTab_of_nil (List.getLast?_eq_none_iff.1 ht), tabs_update,
      h.tabs_attachTab t.node?_nextTabId]
    exact List.getLast?_concat

/-- A successful move to a position that is not the node's own. A loose node may go to the default
position of a tree without tabs, which gets its first tab then. -/
theorem moved_place_loose (h : t.Linked loose) {id : String} (hu : t.place id position = .ok u)
    (ht : position.target? ≠ some id)
    (hl : ∀ target, position.target? = some target → ¬ loose target) :
    ∃ s n c a, (s = t ∨ position = .default ∧ s = t.ensureTab.1) ∧ t.node? id = some n ∧
      s.Names n.kind position c a ∧ s.Moved u id c a := by
  rw [FormTree.place] at hu
  split at hu
  · cases hu
  · next n hn =>
    rw [if_neg ht] at hu
    have hne {target} (hp : position.target? = some target) : target ≠ id := by
      rintro rfl
      exact ht hp
    cases position with
    | default =>
      cases hu
      by_cases hk : n.kind = .tab
      · exact ⟨t, n, none, .last, .inl rfl, hn, .lastTab hk, h.moved_toDefault_tab hn hk⟩
      · exact ⟨_, n, _, .last, .inr ⟨rfl, rfl⟩, hn, .inLastTab hk h.getLast?_ensureTab,
          h.moved_toLastTab hn hk⟩
    | top target =>
      obtain ⟨c, hc, rfl⟩ := exists_of_map_eq_ok hu
      obtain rfl := containerInside_eq hc
      exact ⟨t, n, _, .first, .inl rfl, hn, .top,
        h.moved_relocate hn (admits_of_containerInside hc) (by simp [Anchor.sibling?])⟩
    | bottom target =>
      obtain ⟨c, hc, rfl⟩ := exists_of_map_eq_ok hu
      obtain rfl := containerInside_eq hc
      exact ⟨t, n, _, .last, .inl rfl, hn, .bottom,
        h.moved_relocate hn (admits_of_containerInside hc) (by simp [Anchor.sibling?])⟩
    | before target =>
      obtain ⟨c, hc, rfl⟩ := exists_of_map_eq_ok hu
      obtain ⟨m, hm, rfl⟩ := containerBeside_eq hc
      exact ⟨t, n, _, .before target, .inl rfl, hn, .before hm,
        h.moved_beside hn (admits_of_containerBeside hc) hm (hl target rfl) (hne rfl) rfl⟩
    | after target =>
      obtain ⟨c, hc, rfl⟩ := exists_of_map_eq_ok hu
      obtain ⟨m, hm, rfl⟩ := containerBeside_eq hc
      exact ⟨t, n, _, .after target, .inl rfl, hn, .after hm,
        h.moved_beside hn (admits_of_containerBeside hc) hm (hl target rfl) (hne rfl) rfl⟩

theorem moved_place (h : t.Linked fun _ => False) {id : String}
    (hu : t.place id position = .ok u) (ht : position.target? ≠ some id) :
    ∃ n c a, t.node? id = some n ∧ t.Names n.kind position c a ∧ t.Moved u id c a := by
  obtain ⟨s, n, c, a, hs, hn, hnames, hmoved⟩ :=
    h.moved_place_loose hu ht fun _ _ => not_false
  have htabs : t.tabs ≠ [] := by
    intro hnil
    rw [node?, h.nodes_eq_nil hnil] at hn
    cases hn
  have hst : s = t := by
    rcases hs with rfl | ⟨_, rfl⟩
    · rfl
    · exact ensureTab_of_ne_nil htabs
  subst hst
  exact ⟨n, c, a, hn, hnames, hmoved⟩

end Linked

/-- A move puts the node where the position says and changes nothing else; a position that names the
node itself changes nothing at all. -/
theorem Reachable.moved {t u : FormTree} (h : t.Reachable) {id text : String}
    (hu : t.moveTo id text = .ok u) : ∃ position, Position.parse text = .ok position ∧
      (position.target? = some id → u = t) ∧
      (position.target? ≠ some id → ∃ n container a, t.node? id = some n ∧
        t.Names n.kind position container a ∧ t.Moved u id container a) := by
  obtain ⟨position, hp, hu⟩ := moveTo_cases hu
  apply Exists.intro position
  apply And.intro hp
  constructor
  · intro ht
    obtain ⟨n, _, ⟨_, he⟩ | ⟨hne, _⟩⟩ := h.linked.place_cases hu
    · exact he
    · exact absurd ht hne
  · exact h.linked.moved_place hu

/-- A field goes to the other side of its palette, and the fields around it keep their order. -/
theorem moved_before_palette :
    let t := ((((empty "general").run (.field "a" [] [])).1.run (.palette "p" [])).1.run
      (.field "b" [] [])).1
    ∃ u, t.moveTo "b" "before:palette:p" = .ok u ∧
      t.Moved u "b" (some "0") (.before "palette:p") ∧
      u.siblings (some "0") = ["a", "b", "palette:p"] := by
  intro t
  have ht : t.Reachable := .run (.run (.run (.empty _) trivial) trivial) trivial
  obtain ⟨u, hu, hs⟩ : ∃ u, t.moveTo "b" "before:palette:p" = .ok u ∧
      u.siblings (some "0") = ["a", "b", "palette:p"] := ⟨_, rfl, rfl⟩
  obtain ⟨position, hp, _, hmoved⟩ := ht.moved hu
  have hparse : Position.parse "before:palette:p" = .ok (.before "palette:p") := rfl
  cases hparse.symm.trans hp
  obtain ⟨n, c, a, _, hnames, hm⟩ := hmoved (by simp [Position.target?])
  cases hnames with
  | before htarget =>
    have hkey : t.node? "palette:p" = some ⟨"palette:p", [], some "0", [], .palette "p"⟩ := rfl
    cases hkey.symm.trans htarget
    exact ⟨u, hu, hm, hs⟩

end FormTree

end FormLayout
