import FormLayout.Proofs.Form.InPlace
import FormLayout.Proofs.Form.Placement
import FormLayout.Proofs.Form.Position
/-!
When a call on a tree fails: its position cannot be read or names a place where the node may not
stand, a node is missing, or an id belongs to a node of another kind. The tree then stays as it was.
-/

namespace FormLayout
set_option autoImplicit true

theorem error_map_iff {x : Except Error α} {f : α → β} :
    (∃ e, x.map f = .error e) ↔ ∃ e, x = .error e := by
  cases x <;> simp [Except.map]

/-- One call on a tree. What is done with the node that it gives are calls of their own. -/
inductive Call where
  | tab (id : String)
  | palette (name : String)
  | field (id : String) (config : Fields)
  | lineBreak (position : String)
  | move (id position : String)
  | remove (id : String)

namespace FormTree

/-- A position refers to a node that is missing, or names a list that may not hold the kind. -/
def Refuses (t : FormTree) (kind : NodeKind) (position : Position) : Prop :=
  ∃ target, position.target? = some target ∧
    (t.node? target = none ∨ ∃ c a, t.Names kind position c a ∧ ¬ t.Admits c kind)

/-- An id belongs to a node of another kind. -/
def Collides (t : FormTree) (id : String) (kind : NodeKind) : Prop :=
  ∃ n, t.node? id = some n ∧ n.kind ≠ kind

theorem not_refuses_default {t : FormTree} : ¬ t.Refuses kind .default := by
  rintro ⟨target, htarget, _⟩
  cases htarget

theorem not_admits_of_missing {t : FormTree} (h : t.node? target = none) :
    ¬ t.Admits (some target) kind := by
  rintro ⟨m, hm, _⟩
  cases h.symm.trans hm

theorem refuses_inside_iff {t : FormTree} (hp : position.target? = some target)
    (hnames : ∀ c a, t.Names kind position c a → c = some target)
    (hnamed : t.Names kind position (some target) a) :
    t.Refuses kind position ↔ ¬ t.Admits (some target) kind := by
  constructor
  · rintro ⟨other, hother, hmissing | ⟨c, a, hc, hadmits⟩⟩
    · cases hp.symm.trans hother
      exact not_admits_of_missing hmissing
    · rw [hnames c a hc] at hadmits
      exact hadmits
  · exact fun h => ⟨target, hp, .inr ⟨_, a, hnamed, h⟩⟩

theorem refuses_beside_iff {t : FormTree} (hp : position.target? = some target)
    (hnames : ∀ c a, t.Names kind position c a → ∃ m, t.node? target = some m ∧ c = m.parent)
    (hnamed : ∀ m, t.node? target = some m → t.Names kind position m.parent a) :
    t.Refuses kind position ↔ ∀ m, t.node? target = some m → ¬ t.Admits m.parent kind := by
  constructor
  · rintro ⟨other, hother, hmissing | ⟨c, a, hc, hadmits⟩⟩ m hm
    · cases hp.symm.trans hother
      cases hmissing.symm.trans hm
    · obtain ⟨m', hm', rfl⟩ := hnames c a hc
      cases hm.symm.trans hm'
      exact hadmits
  · intro h
    cases hm : t.node? target with
    | none => exact ⟨target, hp, .inl hm⟩
    | some m => exact ⟨target, hp, .inr ⟨_, a, hnamed m hm, h m hm⟩⟩

theorem refuses_top_iff {t : FormTree} :
    t.Refuses kind (.top target) ↔ ¬ t.Admits (some target) kind :=
  refuses_inside_iff rfl (fun c a h => by cases h; rfl) .top

theorem refuses_bottom_iff {t : FormTree} :
    t.Refuses kind (.bottom target) ↔ ¬ t.Admits (some target) kind :=
  refuses_inside_iff rfl (fun c a h => by cases h; rfl) .bottom

theorem refuses_before_iff {t : FormTree} : t.Refuses kind (.before target) ↔
    ∀ m, t.node? target = some m → ¬ t.Admits m.parent kind := by
  apply refuses_beside_iff rfl
  · intro c a h
    cases h with
    | before hm => exact ⟨_, hm, rfl⟩
  · exact fun m hm => .before hm

theorem refuses_after_iff {t : FormTree} : t.Refuses kind (.after target) ↔
    ∀ m, t.node? target = some m → ¬ t.Admits m.parent kind := by
  apply refuses_beside_iff rfl
  · intro c a h
    cases h with
    | after hm => exact ⟨_, hm, rfl⟩
  · exact fun m hm => .after hm

theorem containerInside_error_iff {t : FormTree} :
    (∃ e, t.containerInside kind target = .error e) ↔ ¬ t.Admits (some target) kind := by
  rw [containerInside, Admits]
  cases t.node? target with
  | none => simp
  | some n => cases h : n.kind.canContain kind <;> simp [h]

theorem containerBeside_error_iff {t : FormTree} :
    (∃ e, t.containerBeside kind sibling = .error e) ↔
      ∀ m, t.node? sibling = some m → ¬ t.Admits m.parent kind := by
  rw [containerBeside]
  cases t.node? sibling with
  | none => simp
  | some m =>
    dsimp only
    simp only [Option.some.injEq, forall_eq']
    cases m.parent with
    | none =>
      rw [Admits]
      by_cases hk : kind = .tab <;> simp [hk]
    | some p => exact containerInside_error_iff

theorem place_error_iff {t : FormTree} {id : String} (hn : t.node? id = some n) :
    (∃ e, t.place id position = .error e) ↔
      position.target? ≠ some id ∧ t.Refuses n.kind position := by
  rw [place, hn]
  dsimp only
  split
  · next ht => simp [ht]
  · next ht =>
    rw [and_iff_right ht]
    cases position with
    | default => simp [not_refuses_default]
    | top target => rw [error_map_iff, containerInside_error_iff, refuses_top_iff]
    | bottom target => rw [error_map_iff, containerInside_error_iff, refuses_bottom_iff]
    | before target => rw [error_map_iff, containerBeside_error_iff, refuses_before_iff]
    | after target => rw [error_map_iff, containerBeside_error_iff, refuses_after_iff]

/-- A tree has one more line break than another one, which is in no list. -/
structure Adds (t s : FormTree) (id : String) : Prop where
  fresh : t.node? id = none
  tabs : s.tabs = t.tabs
  node? : ∀ x, s.node? x = if x = id then some (Node.fresh id .lineBreak) else t.node? x

namespace Adds

variable {t s : FormTree} {id : String}

theorem self (h : t.Adds s id) : s.node? id = some (Node.fresh id .lineBreak) := by
  rw [h.node?, if_pos rfl]

theorem node?_of_ne (h : t.Adds s id) (hx : x ≠ id) : s.node? x = t.node? x := by
  rw [h.node?, if_neg hx]

/-- A line break holds nothing. -/
theorem admits_iff (h : t.Adds s id) : s.Admits c kind ↔ t.Admits c kind := by
  cases c with
  | none => exact Iff.rfl
  | some p =>
    rw [Admits, Admits, h.node?]
    split
    · next hp =>
      subst hp
      simp [h.fresh, Node.fresh, Node.kind, Content.kind, NodeKind.canContain]
    · exact Iff.rfl

theorem refuses_iff (h : t.Adds s id) (ht : position.target? ≠ some id) :
    s.Refuses kind position ↔ t.Refuses kind position := by
  have hnode {target} (hp : position.target? = some target) : s.node? target = t.node? target :=
    h.node?_of_ne fun he => ht (he ▸ hp)
  cases position with
  | default => exact iff_of_false not_refuses_default not_refuses_default
  | top target => rw [refuses_top_iff, refuses_top_iff, h.admits_iff]
  | bottom target => rw [refuses_bottom_iff, refuses_bottom_iff, h.admits_iff]
  | before target =>
    rw [refuses_before_iff, refuses_before_iff, hnode rfl]
    simp only [h.admits_iff]
  | after target =>
    rw [refuses_after_iff, refuses_after_iff, hnode rfl]
    simp only [h.admits_iff]

end Adds

/-- A new line break is in the map before it is placed. -/
theorem adds_lineBreak (t : FormTree) : t.Adds ({ t with lineBreaks := t.nextLineBreak }.insertNode
    (lineBreakId t.nextLineBreak) .lineBreak) (lineBreakId t.nextLineBreak) :=
  ⟨t.node?_nextLineBreak, rfl, fun x => node?_insertNode { t with lineBreaks := t.nextLineBreak }
    (lineBreakId t.nextLineBreak) x .lineBreak⟩

theorem lineBreak_error_iff {t : FormTree} {position : Position} :
    (∃ u e, t.lineBreak position = (u, .error e)) ↔
      position.target? ≠ some (lineBreakId t.nextLineBreak) ∧ t.Refuses .lineBreak position := by
  have hfails : (∃ u e, t.lineBreak position = (u, .error e)) ↔
      ∃ e, ({ t with lineBreaks := t.nextLineBreak }.insertNode (lineBreakId t.nextLineBreak)
        .lineBreak).place (lineBreakId t.nextLineBreak) position = .error e := by
    rw [lineBreak]
    cases FormTree.place _ _ position <;> simp
  rw [hfails, place_error_iff t.adds_lineBreak.self]
  exact and_congr_right t.adds_lineBreak.refuses_iff

theorem moveTo_of_parse {t : FormTree} {position : String}
    (hp : Position.parse position = .ok p) (id : String) : t.moveTo id position = t.place id p := by
  rw [moveTo, hp]
  rfl

end FormTree

namespace Call

open FormTree

/-- The call as an edit of the tree. -/
def edit : Call → TreeEdit
  | tab id => .tab id []
  | palette name => .palette name []
  | field id config => .field id config []
  | lineBreak position => .lineBreak position []
  | move id position => .move id position
  | remove id => .remove id

/-- The call done in place. -/
def change (lastTab : Change String) : Call → Change Answer
  | tab id => (Change.create lastTab id .tab).map fun _ => .id id
  | palette name =>
    (Change.create lastTab (paletteId name) (.palette name)).map fun _ => .id (paletteId name)
  | field id config => (Change.create lastTab id (.field config)).map fun _ => .id id
  | lineBreak position => fun t =>
    match Position.parse position with
    | .error e => (t, .error e)
    | .ok p => (Change.lineBreak lastTab p).map .id t
  | move id position => fun t =>
    match Position.parse position with
    | .error e => (t, .error e)
    | .ok p => (Change.move lastTab id p).map (fun _ => .nothing) t
  | remove id => fun t => t.removeAnswering id

/-- What makes a call on a tree fail. -/
def Refused (t : FormTree) : Call → Prop
  | tab id => t.Collides id .tab
  | palette name => t.Collides (paletteId name) .palette
  | field id _ => t.Collides id .field
  | lineBreak position => Position.Malformed position ∨ ∃ p, Position.parse position = .ok p ∧
    p.target? ≠ some (lineBreakId t.nextLineBreak) ∧ t.Refuses .lineBreak p
  | move id position => Position.Malformed position ∨ t.node? id = none ∨
    ∃ n p, t.node? id = some n ∧ Position.parse position = .ok p ∧ p.target? ≠ some id ∧
      t.Refuses n.kind p
  | remove id => t.node? id = none

theorem change_create (lastTab : Change String) (id : String) (content : Content) (t : FormTree) :
    (Change.create (Change.ensureTab lastTab) id content).map (fun _ => .id id) t =
      t.thenEdit id [] (t.create id content) := by
  rw [Change.create_eq, Change.map, Change.ofExcept]
  cases t.create id content <;> rfl

theorem change_eq (lastTab : Change String) (c : Call) (t : FormTree) :
    c.change (Change.ensureTab lastTab) t = t.run c.edit := by
  cases c with
  | tab id => exact change_create lastTab id .tab t
  | palette name => exact change_create lastTab (paletteId name) (.palette name) t
  | field id config => exact change_create lastTab id (.field config) t
  | lineBreak position =>
    rw [change, edit, run]
    cases Position.parse position with
    | error e => rfl
    | ok p =>
      dsimp only
      rw [Change.map, Change.lineBreak_eq]
      obtain ⟨u, r⟩ := t.lineBreak p
      cases r <;> rfl
  | move id position =>
    rw [change, edit, run]
    cases hp : Position.parse position with
    | error e => rw [moveTo, hp]; rfl
    | ok p =>
      dsimp only
      rw [moveTo_of_parse hp, Change.map, Change.move_eq (Change.ensureTab_eq lastTab),
        Change.ofExcept]
      cases t.place id p <;> rfl
  | remove id => rfl

/-- A call that fails was taken back; only the number of a refused line break is used up. -/
theorem eq_of_change_error (lastTab : Change String) {c : Call} {t u : FormTree}
    (h : c.change (Change.ensureTab lastTab) t = (u, .error e)) :
    ∃ k, t.lineBreaks ≤ k ∧ u = { t with lineBreaks := k } ∧
      ((∀ position, c ≠ lineBreak position) → k = t.lineBreaks) := by
  have hlast := Change.restores_ensureTab lastTab
  have hsame (hu : u = t) : ∃ k, t.lineBreaks ≤ k ∧ u = { t with lineBreaks := k } ∧
      ((∀ position, c ≠ lineBreak position) → k = t.lineBreaks) :=
    ⟨t.lineBreaks, Nat.le_refl _, hu, fun _ => rfl⟩
  cases c with
  | tab id => exact hsame ((Change.restores_create hlast _ _).map _ t u e h)
  | palette name => exact hsame ((Change.restores_create hlast _ _).map _ t u e h)
  | field id config => exact hsame ((Change.restores_create hlast _ _).map _ t u e h)
  | lineBreak position =>
    dsimp only [change] at h
    split at h
    · cases h
      exact hsame rfl
    · next p _ =>
      have hu := Change.eq_of_lineBreak hlast (Change.map_error_iff.1 h)
      exact ⟨t.nextLineBreak, t.le_nextLineBreak, hu, fun hne => absurd rfl (hne position)⟩
  | move id position =>
    dsimp only [change] at h
    split at h
    · cases h
      exact hsame rfl
    · next p _ => exact hsame ((Change.restores_move hlast id p).map _ t u e h)
  | remove id =>
    dsimp only [change, removeAnswering] at h
    split at h
    · cases h
    · cases h
      exact hsame rfl

theorem run_create_error_iff {t : FormTree} {id : String} {content : Content} :
    (∃ u e, t.thenEdit id [] (t.create id content) = (u, .error e)) ↔
      t.Collides id content.kind := by
  rw [create, Collides]
  cases t.node? id with
  | none => simp [thenEdit, editNode]
  | some n =>
    dsimp only
    split <;> simp [thenEdit, editNode, *]

theorem run_error_iff (t : FormTree) (c : Call) :
    (∃ u e, t.run c.edit = (u, .error e)) ↔ c.Refused t := by
  cases c with
  | tab id => exact run_create_error_iff
  | palette name => exact run_create_error_iff
  | field id config => exact run_create_error_iff
  | lineBreak position =>
    rw [edit, run, Refused, ← Position.parse_error_iff]
    cases Position.parse position with
    | error e => simp
    | ok p =>
      have hfails : (∃ u e, t.lineBreak p = (u, .error e)) ↔ _ := lineBreak_error_iff
      simp only [reduceCtorEq, exists_false, false_or, Except.ok.injEq, exists_eq_left']
      rw [← hfails]
      obtain ⟨u, r⟩ := t.lineBreak p
      cases r <;> simp [editNode]
  | move id position =>
    have hfails : (∃ u e, t.run (.move id position) = (u, .error e)) ↔
        ∃ e, t.moveTo id position = .error e := by
      rw [run]
      cases t.moveTo id position <;> simp
    rw [edit, hfails, Refused, ← Position.parse_error_iff]
    cases hp : Position.parse position with
    | error e =>
      rw [moveTo, hp]
      simp [bind, Except.bind]
    | ok p =>
      rw [moveTo_of_parse hp]
      cases hn : t.node? id with
      | none => simp [place, hn]
      | some n => simp [place_error_iff hn]
  | remove id =>
    rw [edit, run, removeAnswering, FormTree.remove, Refused]
    cases hhas : t.has id with
    | true =>
      obtain ⟨n, hn⟩ := has_iff.1 hhas
      simp [hn]
    | false => simp [Entries.has_eq_false_iff.1 hhas, node?]

end Call

namespace FormTree

/-- A call fails exactly when it is refused, and then all nodes and tabs are as before. Done in
place, where it may have added a node and a tab before it fails, it comes to the same. -/
theorem failed_call (t : FormTree) (c : Call) :
    (∀ lastTab, c.change (Change.ensureTab lastTab) t = t.run c.edit) ∧
    ((∃ u e, t.run c.edit = (u, .error e)) ↔ c.Refused t) ∧
    ∀ u e, t.run c.edit = (u, .error e) → u.tabs = t.tabs ∧ u.nodes = t.nodes ∧
      u.defaultTabLabel = t.defaultTabLabel ∧ t.lineBreaks ≤ u.lineBreaks ∧
      ((∀ position, c ≠ .lineBreak position) → u = t) := by
  refine ⟨fun lastTab => c.change_eq lastTab t, c.run_error_iff t, ?_⟩
  intro u e h
  rw [← c.change_eq fun t => (t, .ok t.nextTabId)] at h
  obtain ⟨k, hk, rfl, hsame⟩ := c.eq_of_change_error _ h
  refine ⟨rfl, rfl, rfl, hk, ?_⟩
  intro hne
  rw [hsame hne]

/-- A line break beside a tab is refused, and its number is used up. -/
theorem failed_lineBreak_beside_tab :
    let t := ((empty "general").run (.field "a" [] [])).1
    (Call.lineBreak "before:0").Refused t ∧ ∃ u, t.run (.lineBreak "before:0" []) =
      (u, .error (.invalidNesting .lineBreak (.atTopLevel "0"))) ∧
        u.tabs = t.tabs ∧ u.nodes = t.nodes ∧ u.lineBreaks = 1 := by
  have hrun : let t := ((empty "general").run (.field "a" [] [])).1
      t.run (.lineBreak "before:0" []) = ({ t with lineBreaks := 1 },
        .error (.invalidNesting .lineBreak (.atTopLevel "0"))) := rfl
  intro t
  obtain ⟨_, hrefused, hsame⟩ := failed_call t (.lineBreak "before:0")
  obtain ⟨htabs, hnodes, _⟩ := hsame _ _ hrun
  exact ⟨hrefused.1 ⟨_, _, hrun⟩, _, hrun, htabs, hnodes, rfl⟩

end FormTree

end FormLayout
