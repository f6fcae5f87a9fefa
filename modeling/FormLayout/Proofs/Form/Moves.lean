import FormLayout.Proofs.Form.Fresh
import FormLayout.Proofs.Form.Links
/-!
What moves and creations do to a linked tree. Every successful move takes one node out of its list
and puts it into another, after a tab was added if there was none.
-/

namespace FormLayout
set_option autoImplicit true

theorem exists_of_map_eq_ok {x : Except Error α} (h : x.map f = .ok b) :
    ∃ a, x = .ok a ∧ f a = b := by
  cases x with
  | error e => cases h
  | ok a => exact ⟨a, rfl, Except.ok.inj h⟩

theorem eq_ok_of_recovered {x : Except Error α} (h : recovered x = .ok (some a)) : x = .ok a := by
  cases x with
  | ok b =>
    cases h
    rfl
  | error e =>
    rw [recovered] at h
    split at h <;> cases h

theorem Node.moved_of_not_mem {id : String} {n : Node} (hi : n.id ≠ id) (hc : id ∉ n.children)
    (c : Option String) (a : Anchor) : n.moved id c a =
      { n with children := if c = some n.id then a.insert id n.children else n.children } := by
  rw [moved, held, children_taken, id_taken, parent_taken, if_neg hi, filter_ne_eq_self hc, if_neg hi]
  rfl

theorem Content.kind_palette {content : Content} (h : content.kind = .palette) :
    ∃ name, content = .palette name := by
  cases content with
  | palette name => exact ⟨name, rfl⟩
  | tab => cases h
  | field => cases h
  | lineBreak => cases h

theorem Content.kind_field {content : Content} (h : content.kind = .field) :
    ∃ config, content = .field config := by
  cases content with
  | field config => exact ⟨config, rfl⟩
  | tab => cases h
  | palette => cases h
  | lineBreak => cases h

namespace FormTree

theorem exists_config {t : FormTree} {id : String} (h : (t.field? id).isSome = true) :
    ∃ config, (t.field? id).bind Node.config? = some config := by
  obtain ⟨n, hf⟩ := Option.isSome_iff_exists.1 h
  obtain ⟨config, hc⟩ := Content.kind_field (of_decide_eq_true (Option.filter_eq_some_iff.1 hf).2)
  exact ⟨config, by rw [hf, Option.bind_some, Node.config?_eq_some_iff.2 hc]⟩

@[simp] theorem defaultTabLabel_relocate (t : FormTree) (id : String) (c : Option String)
    (a : Anchor) : (t.relocate id c a).defaultTabLabel = t.defaultTabLabel := by
  rw [relocate, detach]
  split <;> cases c <;> rfl

@[simp] theorem lineBreaks_relocate (t : FormTree) (id : String) (c : Option String)
    (a : Anchor) : (t.relocate id c a).lineBreaks = t.lineBreaks := by
  rw [relocate, detach]
  split <;> cases c <;> rfl

theorem ensureTab_of_mem {t : FormTree} {tab : String} (h : t.tabs.getLast? = some tab) :
    t.ensureTab = (t, tab) := by
  rw [ensureTab, h]

theorem ensureTab_of_nil {t : FormTree} (h : t.tabs = []) : t.ensureTab =
    ((t.attachTab t.nextTabId).update t.nextTabId fun n => n.setLabel (some t.defaultTabLabel),
      t.nextTabId) := by
  rw [ensureTab, h]
  rfl

theorem ensureTab_of_ne_nil {t : FormTree} (h : t.tabs ≠ []) : t.ensureTab.1 = t := by
  rw [ensureTab_of_mem (List.getLast?_eq_some_getLast h)]

theorem moveToDefault_of_ne_tab {t : FormTree} {id : String} (hk : kind ≠ .tab) :
    t.moveToDefault id kind = t.ensureTab.1.relocate id (some t.ensureTab.2) .last := by
  rw [moveToDefault, if_neg hk]

theorem admits_of_containerInside {t : FormTree} (hc : t.containerInside kind target = .ok c) :
    t.Admits c kind := by
  rw [containerInside] at hc
  split at hc
  · cases hc
  · next n hn =>
    split at hc
    · next hk =>
      cases hc
      exact ⟨n, hn, hk⟩
    · cases hc

theorem admits_of_containerBeside {t : FormTree} (hc : t.containerBeside kind sibling = .ok c) :
    t.Admits c kind := by
  rw [containerBeside] at hc
  split at hc
  · cases hc
  · split at hc
    · exact admits_of_containerInside hc
    · split at hc
      · next hk =>
        cases hc
        exact hk
      · cases hc

/-- A successful move: nothing, when the position is the node itself, else one to the default
position or into a list that may hold the node. -/
theorem place_ok_cases {t u : FormTree} {id : String} (hu : t.place id position = .ok u) :
    ∃ n, t.node? id = some n ∧
      ((position.target? = some id ∧ u = t) ∨
        (position.target? ≠ some id ∧ (u = t.moveToDefault id n.kind ∨
          ∃ c a, t.Admits c n.kind ∧ u = t.relocate id c a))) := by
  rw [place] at hu
  split at hu
  · cases hu
  · next n hn =>
    refine ⟨n, hn, ?_⟩
    split at hu
    · next ht =>
      cases hu
      exact .inl ⟨ht, rfl⟩
    · next ht =>
      refine .inr ⟨ht, ?_⟩
      cases position with
      | default =>
        cases hu
        exact .inl rfl
      | top | bottom =>
        obtain ⟨c, hc, rfl⟩ := exists_of_map_eq_ok hu
        exact .inr ⟨c, _, admits_of_containerInside hc, rfl⟩
      | before | after =>
        obtain ⟨c, hc, rfl⟩ := exists_of_map_eq_ok hu
        exact .inr ⟨c, _, admits_of_containerBeside hc, rfl⟩

theorem create_cases {t u : FormTree} {id : String} {content : Content}
    (hu : t.create id content = .ok u) :
    (u = t ∧ ∃ n, t.node? id = some n ∧ n.kind = content.kind) ∨
      (t.node? id = none ∧ u = (t.insertNode id content).moveToDefault id content.kind) := by
  rw [create] at hu
  split at hu
  · next n hn =>
    split at hu
    · next hk =>
      cases hu
      exact .inl ⟨rfl, n, hn, hk⟩
    · cases hu
  · next hn =>
    cases hu
    exact .inr ⟨hn, rfl⟩

theorem moveTo_cases {t u : FormTree} {id : String} (hu : t.moveTo id position = .ok u) :
    ∃ p, Position.parse position = .ok p ∧ t.place id p = .ok u := by
  cases hp : Position.parse position with
  | error e => rw [moveTo, hp] at hu; cases hu
  | ok p => rw [moveTo, hp] at hu; exact ⟨p, rfl, hu⟩

theorem lineBreak_ok_cases {t u : FormTree} {id : String}
    (hu : t.lineBreak position = (u, .ok id)) : id = lineBreakId t.nextLineBreak ∧
      ({ t with lineBreaks := t.nextLineBreak }.insertNode id .lineBreak).place id position =
        .ok u := by
  rw [lineBreak] at hu
  split at hu
  · next t' ht =>
    cases hu
    exact ⟨rfl, ht⟩
  · cases hu

theorem lineBreak_error_cases {t u : FormTree} (hu : t.lineBreak position = (u, .error e)) :
    u = { t with lineBreaks := t.nextLineBreak } := by
  rw [lineBreak] at hu
  split at hu
  · cases hu
  · cases hu
    rfl

/-- Every node of the first tree is in the second one, and of the same kind. -/
def Retains (t u : FormTree) : Prop :=
  ∀ ⦃x n⦄, t.node? x = some n → ∃ m, u.node? x = some m ∧ m.kind = n.kind

theorem Retains.refl (t : FormTree) : t.Retains t := fun _ n hn => ⟨n, hn, rfl⟩

theorem Retains.trans {t u v : FormTree} (h : t.Retains u) (h' : u.Retains v) : t.Retains v := by
  intro x n hn
  obtain ⟨m, hm, hk⟩ := h hn
  obtain ⟨m', hm', hk'⟩ := h' hm
  exact ⟨m', hm', hk'.trans hk⟩

theorem Retains.has {t u : FormTree} (h : t.Retains u) (hx : t.has x = true) :
    u.has x = true := by
  obtain ⟨n, hn⟩ := has_iff.1 hx
  obtain ⟨m, hm, _⟩ := h hn
  exact has_iff.2 ⟨m, hm⟩

theorem retains_update (t : FormTree) (id : String) (hf : Node.KeepsLinks f) :
    t.Retains (t.update id f) := by
  intro x n hn
  rw [node?_update, hn]
  split
  · exact ⟨f n, rfl, hf.kind n⟩
  · exact ⟨n, rfl, rfl⟩

/-- The links of a tree fit, and the loose nodes are line breaks. -/
structure Joined (loose : String → Prop) (t : FormTree) : Prop extends t.Linked loose where
  stray {id n} : loose id → t.node? id = some n → n.kind = .lineBreak

theorem Linked.joined {t : FormTree} (h : t.Linked fun _ => False) : t.Joined fun _ => False :=
  { h with stray := False.elim }

namespace Linked

variable {t u : FormTree} {loose : String → Prop}

theorem ne_of_fresh {id : String} (hid : t.node? id = none) (hx : t.node? x = some m) :
    x ≠ id := by
  rintro rfl
  cases hid.symm.trans hx

theorem not_mem_children_of_fresh (h : t.Linked loose) {id : String} (hid : t.node? id = none)
    (hx : t.node? x = some m) : id ∉ m.children := by
  intro hc
  obtain ⟨k, hk, _⟩ := h.listed hx hc
  cases hid.symm.trans hk

theorem not_mem_tabs_of_fresh (h : t.Linked loose) {id : String} (hid : t.node? id = none) :
    id ∉ t.tabs := by
  intro hm
  obtain ⟨_, k, hk, _⟩ := h.mem_tabs.1 hm
  cases hid.symm.trans hk

/-- A new line break is loose until it is placed. -/
theorem insert_lineBreak (h : t.Linked loose) : ({ t with lineBreaks := t.nextLineBreak }.insertNode
    (lineBreakId t.nextLineBreak) .lineBreak).Linked
      fun x => x = lineBreakId t.nextLineBreak ∨ loose x :=
  (h.numbering t.nextLineBreak).insertNode t.node?_nextLineBreak (by simp)

theorem loose_of_insert (h : t.Linked loose) {id : String} (hid : t.node? id = none)
    (x : String) : (x ≠ id ∧ (x = id ∨ loose x)) ↔ loose x := by
  constructor
  · exact fun hx => hx.2.resolve_left hx.1
  · intro hl
    obtain ⟨m, hm⟩ := h.loose_node hl
    exact ⟨ne_of_fresh hid hm, .inr hl⟩

theorem insert_relocate (h : t.Linked loose) {id : String} {content : Content}
    (hid : t.node? id = none) (hp : ∀ name, content = .palette name → id = paletteId name)
    (hc : (t.insertNode id content).Admits c content.kind) (a : Anchor) :
    ((t.insertNode id content).relocate id c a).Linked loose := by
  have hn : (t.insertNode id content).node? id = some (Node.fresh id content) :=
    node?_insertNode_self t id content
  exact ((h.insertNode hid hp).relocate hn hc a).congr (h.loose_of_insert hid)

/-- A new node at a place: its container lists it, and nothing else changes. -/
theorem node?_insert_relocate (h : t.Linked loose) {id : String} {content : Content}
    (hid : t.node? id = none) (hp : ∀ name, content = .palette name → id = paletteId name)
    (hc : (t.insertNode id content).Admits c content.kind) (a : Anchor) (x : String) :
    ((t.insertNode id content).relocate id c a).node? x =
      if x = id then some { Node.fresh id content with parent := c }
      else (t.node? x).map fun m =>
        { m with children := if c = some m.id then a.insert id m.children else m.children } := by
  have hn : (t.insertNode id content).node? id = some (Node.fresh id content) :=
    node?_insertNode_self t id content
  rw [(h.insertNode hid hp).node?_relocate hn hc, node?_insertNode]
  split
  · next he =>
    have hne : c ≠ some id := by
      rintro rfl
      obtain ⟨m, hm, hmk⟩ := hc
      cases hn.symm.trans hm
      exact Nat.lt_irrefl _ (NodeKind.height_lt_of_canContain hmk)
    simp [Node.moved, Node.held, Node.taken, Node.fresh, hne]
  · cases hx : t.node? x with
    | none => rfl
    | some m =>
      have hm : m.id ≠ id := h.keyed hx ▸ ne_of_fresh hid hx
      rw [Option.map_some, Option.map_some,
        Node.moved_of_not_mem hm (h.not_mem_children_of_fresh hid hx)]

theorem tabs_insert_relocate (h : t.Linked loose) {id : String} {content : Content}
    (hid : t.node? id = none) (hp : ∀ name, content = .palette name → id = paletteId name)
    (c : Option String) (a : Anchor) :
    ((t.insertNode id content).relocate id c a).tabs =
      if c = none then a.insert id t.tabs else t.tabs := by
  rw [(h.insertNode hid hp).tabs_relocate, tabs_insertNode,
    filter_ne_eq_self (h.not_mem_tabs_of_fresh hid)]

theorem admits_tab (t : FormTree) (id : String) :
    (t.insertNode id .tab).Admits none (Content.kind .tab) := rfl

theorem attachTab (h : t.Linked loose) {id : String} (hid : t.node? id = none) :
    (t.attachTab id).Linked loose :=
  h.insert_relocate hid (by simp) (admits_tab t id) .last

theorem tabs_attachTab (h : t.Linked loose) {id : String} (hid : t.node? id = none) :
    (t.attachTab id).tabs = t.tabs ++ [id] :=
  h.tabs_insert_relocate hid (by simp) none .last

theorem node?_attachTab (h : t.Linked loose) {id : String} (hid : t.node? id = none)
    (x : String) : (t.attachTab id).node? x =
      if x = id then some (Node.fresh id .tab) else t.node? x := by
  rw [FormTree.attachTab, h.node?_insert_relocate hid (by simp) (admits_tab t id)]
  split
  · rfl
  · cases t.node? x <;> simp

theorem ensureTab (h : t.Linked loose) : t.ensureTab.1.Linked loose := by
  cases ht : t.tabs.getLast? with
  | some tab =>
    rw [ensureTab_of_mem ht]
    exact h
  | none =>
    rw [ensureTab_of_nil (List.getLast?_eq_none_iff.1 ht)]
    exact (h.attachTab t.node?_nextTabId).update _ (Node.keepsLinks_setLabel _)

theorem node?_ensureTab (h : t.Linked loose) (hx : t.node? x = some n) :
    t.ensureTab.1.node? x = some n := by
  cases ht : t.tabs.getLast? with
  | some tab => rw [ensureTab_of_mem ht, hx]
  | none =>
    have hne := ne_of_fresh t.node?_nextTabId hx
    rw [ensureTab_of_nil (List.getLast?_eq_none_iff.1 ht), node?_update, if_neg hne,
      h.node?_attachTab t.node?_nextTabId, if_neg hne, hx]

theorem ensureTab_tab (h : t.Linked loose) :
    ∃ n, t.ensureTab.1.node? t.ensureTab.2 = some n ∧ n.kind = .tab := by
  cases ht : t.tabs.getLast? with
  | some tab =>
    rw [ensureTab_of_mem ht]
    exact (h.mem_tabs.1 (List.mem_of_getLast? ht)).2
  | none =>
    rw [ensureTab_of_nil (List.getLast?_eq_none_iff.1 ht)]
    refine ⟨_, by rw [node?_update, if_pos rfl, h.node?_attachTab t.node?_nextTabId, if_pos rfl]; rfl,
      ?_⟩
    exact (Node.keepsLinks_setLabel _).kind _

theorem admits_ensureTab (h : t.Linked loose) (hk : kind ≠ .tab) :
    t.ensureTab.1.Admits (some t.ensureTab.2) kind := by
  obtain ⟨n, hn, hnk⟩ := h.ensureTab_tab
  exact ⟨n, hn, by simpa [hnk, NodeKind.canContain] using hk⟩

theorem moveToDefault (h : t.Linked loose) {id : String} (hn : t.node? id = some n) :
    (t.moveToDefault id n.kind).Linked fun x => x ≠ id ∧ loose x := by
  rw [FormTree.moveToDefault]
  split
  · next hk => exact h.relocate (c := none) hn hk .last
  · next hk => exact h.ensureTab.relocate (h.node?_ensureTab hn) (h.admits_ensureTab hk) .last

/-- In a linked tree the default position is one change of place as well, after a tab was added if
there was none. -/
theorem place_cases (h : t.Linked loose) {id : String} (hu : t.place id position = .ok u) :
    ∃ n, t.node? id = some n ∧
      ((position.target? = some id ∧ u = t) ∨
        (position.target? ≠ some id ∧ ∃ s c a, (s = t ∨ s = t.ensureTab.1 ∧ n.kind ≠ .tab) ∧
          s.Admits c n.kind ∧ u = s.relocate id c a)) := by
  obtain ⟨n, hn, hsame | ⟨ht, rfl | ⟨c, a, hc, rfl⟩⟩⟩ := place_ok_cases hu
  · exact ⟨n, hn, .inl hsame⟩
  · refine ⟨n, hn, .inr ⟨ht, ?_⟩⟩
    by_cases hk : n.kind = .tab
    · exact ⟨t, none, .last, .inl rfl, hk, by rw [FormTree.moveToDefault, if_pos hk]⟩
    · exact ⟨_, _, .last, .inr ⟨rfl, hk⟩, h.admits_ensureTab hk, moveToDefault_of_ne_tab hk⟩
  · exact ⟨n, hn, .inr ⟨ht, t, c, a, .inl rfl, hc, rfl⟩⟩

theorem place (h : t.Linked loose) {id : String} (hu : t.place id position = .ok u) :
    u.Linked fun x => loose x ∧ (x = id → position.target? = some id) := by
  obtain ⟨n, hn, ⟨ht, rfl⟩ | ⟨ht, s, c, a, hs, hc, rfl⟩⟩ := h.place_cases hu
  · exact h.congr fun x => ⟨fun hx => ⟨hx, fun _ => ht⟩, fun hx => hx.1⟩
  · have hs' : s.Linked loose ∧ s.node? id = some n := by
      rcases hs with rfl | ⟨rfl, _⟩
      · exact ⟨h, hn⟩
      · exact ⟨h.ensureTab, h.node?_ensureTab hn⟩
    exact (hs'.1.relocate hs'.2 hc a).congr fun x =>
      ⟨fun hx => ⟨hx.2, fun he => absurd he hx.1⟩, fun hx => ⟨fun he => ht (hx.2 he), hx.1⟩⟩

theorem insert_default (h : t.Linked loose) {id : String} {content : Content}
    (hid : t.node? id = none) (hp : ∀ name, content = .palette name → id = paletteId name) :
    ((t.insertNode id content).moveToDefault id content.kind).Linked loose := by
  have hn : (t.insertNode id content).node? id = some (Node.fresh id content) :=
    node?_insertNode_self t id content
  exact ((h.insertNode hid hp).moveToDefault hn).congr (h.loose_of_insert hid)

theorem create (h : t.Linked loose) {id : String} {content : Content}
    (hp : ∀ name, content = .palette name → id = paletteId name)
    (hu : t.create id content = .ok u) : u.Linked loose := by
  rcases create_cases hu with ⟨rfl, _⟩ | ⟨hid, rfl⟩
  · exact h
  · exact h.insert_default hid hp

theorem retains_insertNode {id : String} (content : Content) (hid : t.node? id = none) :
    t.Retains (t.insertNode id content) :=
  fun _ m hm => ⟨m, by rw [node?_insertNode, if_neg (ne_of_fresh hid hm), hm], rfl⟩

theorem retains_relocate (h : t.Linked loose) {id : String} (hn : t.node? id = some n)
    (hc : t.Admits c n.kind) (a : Anchor) : t.Retains (t.relocate id c a) := by
  intro x m hm
  exact ⟨_, by rw [h.node?_relocate hn hc, hm]; rfl, Node.kind_moved id c a m⟩

theorem retains_ensureTab (h : t.Linked loose) : t.Retains t.ensureTab.1 :=
  fun _ m hm => ⟨m, h.node?_ensureTab hm, rfl⟩

theorem retains_moveToDefault (h : t.Linked loose) {id : String} (hn : t.node? id = some n) :
    t.Retains (t.moveToDefault id n.kind) := by
  rw [FormTree.moveToDefault]
  split
  · next hk => exact h.retains_relocate (c := none) hn hk .last
  · next hk =>
    exact h.retains_ensureTab.trans
      (h.ensureTab.retains_relocate (h.node?_ensureTab hn) (h.admits_ensureTab hk) .last)

theorem retains_place (h : t.Linked loose) {id : String} (hu : t.place id position = .ok u) :
    t.Retains u := by
  obtain ⟨n, hn, ⟨_, rfl⟩ | ⟨_, s, c, a, rfl | ⟨rfl, _⟩, hc, rfl⟩⟩ := h.place_cases hu
  · exact .refl _
  · exact h.retains_relocate hn hc a
  · exact h.retains_ensureTab.trans (h.ensureTab.retains_relocate (h.node?_ensureTab hn) hc a)

theorem retains_create (h : t.Linked loose) {id : String}
    (hp : ∀ name, content = .palette name → id = paletteId name)
    (hu : t.create id content = .ok u) : t.Retains u := by
  rcases create_cases hu with ⟨rfl, _⟩ | ⟨hid, rfl⟩
  · exact .refl _
  · have hn : (t.insertNode id content).node? id = some (Node.fresh id content) :=
      node?_insertNode_self t id content
    exact (retains_insertNode content hid).trans ((h.insertNode hid hp).retains_moveToDefault hn)

theorem retains_lineBreak (h : t.Linked loose) (position : Position) :
    t.Retains (t.lineBreak position).1 := by
  cases hu : t.lineBreak position with
  | mk u answer =>
    cases answer with
    | error e =>
      rw [lineBreak_error_cases hu]
      exact .refl t
    | ok id =>
      obtain ⟨rfl, hp⟩ := lineBreak_ok_cases hu
      exact (retains_insertNode .lineBreak t.node?_nextLineBreak).trans
        (h.insert_lineBreak.retains_place hp)

theorem has_update (t : FormTree) (id x : String) (f : Node → Node) :
    (t.update id f).has x = t.has x := by
  rw [Bool.eq_iff_iff, has_iff, has_iff, node?_update]
  split
  · simp
  · rfl

theorem tabs_relocate_of_ne_tab (h : t.Linked loose) {id : String} (hn : t.node? id = some n)
    (hk : n.kind ≠ .tab) (hc : t.Admits c n.kind) (a : Anchor) :
    (t.relocate id c a).tabs = t.tabs := by
  have hne : c ≠ none := by
    rintro rfl
    exact hk hc
  rw [h.tabs_relocate, if_neg hne, filter_ne_eq_self (h.not_mem_tabs hn hk)]

theorem tabs_moveToDefault (h : t.Linked loose) {id : String} (hn : t.node? id = some n)
    (hk : n.kind ≠ .tab) (ht : t.tabs ≠ []) : (t.moveToDefault id n.kind).tabs = t.tabs := by
  rw [moveToDefault_of_ne_tab hk]
  have hc := h.admits_ensureTab hk
  rw [ensureTab_of_ne_nil ht] at hc ⊢
  exact h.tabs_relocate_of_ne_tab hn hk hc .last

/-- In a tree with a tab only moves of tabs change the tabs. -/
theorem tabs_place (h : t.Linked loose) {id : String} (hu : t.place id position = .ok u)
    (hk : ∀ n, t.node? id = some n → n.kind ≠ .tab) (ht : t.tabs ≠ []) : u.tabs = t.tabs := by
  obtain ⟨n, hn, ⟨_, rfl⟩ | ⟨_, s, c, a, hs, hc, rfl⟩⟩ := h.place_cases hu
  · rfl
  · have hst : s = t := by
      rcases hs with rfl | ⟨rfl, _⟩
      · rfl
      · exact ensureTab_of_ne_nil ht
    subst hst
    exact h.tabs_relocate_of_ne_tab hn (hk n hn) hc a

theorem create_self (h : t.Linked loose) {id : String}
    (hp : ∀ name, content = .palette name → id = paletteId name)
    (hu : t.create id content = .ok u) : ∃ n, u.node? id = some n ∧ n.kind = content.kind := by
  rcases create_cases hu with ⟨rfl, hn⟩ | ⟨hid, rfl⟩
  · exact hn
  · have hn : (t.insertNode id content).node? id = some (Node.fresh id content) :=
      node?_insertNode_self t id content
    exact (h.insertNode hid hp).retains_moveToDefault hn hn

theorem tabs_create (h : t.Linked loose) {id : String}
    (hp : ∀ name, content = .palette name → id = paletteId name) (hk : content.kind ≠ .tab)
    (ht : t.tabs ≠ []) (hu : t.create id content = .ok u) : u.tabs = t.tabs := by
  rcases create_cases hu with ⟨rfl, _⟩ | ⟨hid, rfl⟩
  · rfl
  · have hn : (t.insertNode id content).node? id = some (Node.fresh id content) :=
      node?_insertNode_self t id content
    exact (h.insertNode hid hp).tabs_moveToDefault hn hk ht

theorem tabs_create_tab (h : t.Linked loose) {id : String} (hid : t.node? id = none)
    (hu : t.create id .tab = .ok u) : u.tabs = t.tabs ++ [id] := by
  rcases create_cases hu with ⟨_, n, hn, _⟩ | ⟨_, rfl⟩
  · cases hid.symm.trans hn
  · exact h.tabs_attachTab hid

/-- The number of numbered tabs is the id of no tab, so opening one under this id creates it. -/
theorem node?_numbered (h : t.Linked fun _ => False)
    (hnum : t.tabs = (List.range t.tabs.length).map toString)
    (hu : t.tab (toString t.tabs.length) = .ok u) : t.node? (toString t.tabs.length) = none := by
  rcases create_cases hu with ⟨_, n, hn, hk⟩ | ⟨hid, _⟩
  · have hm : toString t.tabs.length ∈ t.tabs := h.mem_tabs.2 ⟨not_false, n, hn, hk⟩
    rw [hnum, List.mem_map] at hm
    obtain ⟨k, hk, he⟩ := hm
    rw [List.length_map, List.length_range] at he
    exact absurd (toString_nat_injective he) (Nat.ne_of_lt (List.mem_range.1 hk))
  · exact hid

theorem tabs_lineBreak (h : t.Linked loose) (ht : t.tabs ≠ []) :
    (t.lineBreak position).1.tabs = t.tabs := by
  cases hu : t.lineBreak position with
  | mk u answer =>
    cases answer with
    | error e =>
      rw [lineBreak_error_cases hu]
    | ok id =>
      obtain ⟨rfl, hp⟩ := lineBreak_ok_cases hu
      refine h.insert_lineBreak.tabs_place hp (fun n hn => ?_) ht
      rw [node?_insertNode_self] at hn
      cases hn
      exact NodeKind.noConfusion

end Linked

end FormTree

end FormLayout
