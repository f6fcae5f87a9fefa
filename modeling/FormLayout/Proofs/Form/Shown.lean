import FormLayout.Proofs.Form.Kinds
import FormLayout.Proofs.Form.Placement
/-!
What a tree shows, whatever the ids of its nodes. Each creation and move at the end of a container
appends to one list; a field leaves the list where it was, and all other nodes stay.
-/

namespace FormLayout
set_option autoImplicit true

/-- A node as a form shows it, wherever it stands. -/
inductive Shown where
  | tab (slots : Slots)
  | palette (name : String) (slots : Slots)
  | field (id : String) (slots : Slots)
  | lineBreak
  deriving DecidableEq, Repr

namespace Shown

def fieldId? : Shown → Option String
  | .field id _ => some id
  | .tab _ | .palette _ _ | .lineBreak => none

def palette? : Shown → Option String
  | .palette name _ => some name
  | .tab _ | .field _ _ | .lineBreak => none

def kind : Shown → NodeKind
  | .tab _ => .tab
  | .palette _ _ => .palette
  | .field _ _ => .field
  | .lineBreak => .lineBreak

/-- Whether both are the same field. -/
def sameField (s r : Shown) : Bool := s.fieldId?.isSome && s.fieldId? = r.fieldId?

theorem sameField_iff {s r : Shown} :
    s.sameField r = true ↔ ∃ id, s.fieldId? = some id ∧ r.fieldId? = some id := by
  rw [sameField, Bool.and_eq_true, decide_eq_true_iff, Option.isSome_iff_exists]
  constructor
  · rintro ⟨⟨id, hs⟩, he⟩
    exact ⟨id, hs, he ▸ hs⟩
  · rintro ⟨id, hs, hr⟩
    exact ⟨⟨id, hs⟩, hs.trans hr.symm⟩

theorem fieldId?_isSome_iff {s : Shown} : s.fieldId?.isSome = true ↔ s.kind = .field := by
  cases s <;> simp [fieldId?, kind]

theorem palette?_isSome_iff {s : Shown} : s.palette?.isSome = true ↔ s.kind = .palette := by
  cases s <;> simp [palette?, kind]

end Shown

/-- The tabs of a form with what they hold, and in the same way with what palettes hold. -/
abbrev Form := List (Shown × List (Shown × List Shown))

/-- All that a form shows, from top to bottom. -/
def Form.flatten (f : Form) : List Shown :=
  f.flatMap fun (tab, nodes) => tab :: nodes.flatMap fun (s, inside) => s :: inside

def Content.shown (id : String) (slots : Slots) : Content → Shown
  | .tab => .tab slots
  | .palette name => .palette name slots
  | .field _ => .field id slots
  | .lineBreak => .lineBreak

def Node.shown (n : Node) : Shown := n.content.shown n.id n.slots

theorem Content.kind_shown (id : String) (slots : Slots) (content : Content) :
    (content.shown id slots).kind = content.kind := by
  cases content <;> rfl

theorem Content.fieldId?_shown {content : Content} {id : String} :
    (content.shown id slots).fieldId? = some x ↔ content.kind = .field ∧ x = id := by
  cases content with
  | field => simp [shown, Shown.fieldId?, kind, eq_comm]
  | tab => simp [shown, Shown.fieldId?, kind]
  | palette => simp [shown, Shown.fieldId?, kind]
  | lineBreak => simp [shown, Shown.fieldId?, kind]

theorem Content.palette?_shown {content : Content} {id : String}
    (h : (content.shown id slots).palette? = some name) : content = .palette name := by
  cases content with
  | palette other => rw [Option.some.inj h]
  | tab => cases h
  | field => cases h
  | lineBreak => cases h

/-- Contents of one kind show the same, if palettes have the same name. -/
theorem Content.shown_of_kind {a b : Content} (hk : a.kind = b.kind)
    (hp : ∀ name, b = .palette name → a = .palette name) (id : String) (slots : Slots) :
    a.shown id slots = b.shown id slots := by
  cases b with
  | palette name => rw [hp name rfl]
  | tab => cases a <;> first | rfl | cases hk
  | field => cases a <;> first | rfl | cases hk
  | lineBreak => cases a <;> first | rfl | cases hk

theorem Node.kind_shown (n : Node) : n.shown.kind = n.kind := n.content.kind_shown n.id n.slots

namespace FormTree

def form (t : FormTree) : Form :=
  t.tabNodes.map fun tab =>
    (tab.shown, (t.childNodes tab.id).map fun n => (n.shown, (t.childNodes n.id).map Node.shown))

def shown? (t : FormTree) (id : String) : Option Shown := (t.node? id).map Node.shown

/-- What the children of a container show, or the tabs. -/
def shownIn (t : FormTree) (c : Option String) : List Shown := (t.siblings c).filterMap t.shown?

/-- Two trees are the same besides one node and its place. -/
structure Besides (id : String) (t u : FormTree) : Prop where
  siblings (c : Option String) : (u.siblings c).filter (· ≠ id) = (t.siblings c).filter (· ≠ id)
  shown? {x : String} : x ≠ id → u.shown? x = t.shown? x

/-- A node now shows something at the end of a list, and of no other one. -/
structure Puts (t u : FormTree) (id : String) (c : Option String) (s : Shown) : Prop where
  siblings (x : Option String) :
    u.siblings x = (t.siblings x).filter (· ≠ id) ++ if x = c then [id] else []
  shown? (x : String) : u.shown? x = if x = id then some s else t.shown? x

/-- The positions at the end of a container, or of the last tab. -/
inductive EndsIn (t : FormTree) : Position → String → Prop where
  | default : t.tabs.getLast? = some target → EndsIn t .default target
  | bottom : EndsIn t (.bottom target) target

theorem kind?_eq_shown? (t : FormTree) (id : String) :
    t.kind? id = (t.shown? id).map Shown.kind := by
  rw [kind?, shown?, Option.map_map]
  congr 1
  funext n
  exact n.kind_shown.symm

theorem shown?_of_node? {t : FormTree} {id : String} (hn : t.node? id = some n) :
    t.shown? id = some n.shown := by
  rw [shown?, hn, Option.map_some]

theorem siblings_update (t : FormTree) (id : String) (hf : Node.KeepsLinks f) (c : Option String) :
    (t.update id f).siblings c = t.siblings c := by
  cases c with
  | none => rfl
  | some x =>
    rw [siblings, siblings, node?_update]
    split
    · rw [Option.map_map]
      congr 2
      funext n
      exact hf.children n
    · rfl

theorem siblings_insertNode {t : FormTree} {id : String} (hid : t.node? id = none)
    (content : Content) (c : Option String) :
    (t.insertNode id content).siblings c = t.siblings c := by
  cases c with
  | none => rfl
  | some x =>
    rw [siblings, siblings, node?_insertNode]
    split
    · next hx =>
      rw [hx, hid]
      rfl
    · rfl

theorem EndsIn.mono {t u : FormTree} (h : t.EndsIn p target) (ht : u.tabs = t.tabs) :
    u.EndsIn p target := by
  cases h with
  | default hlast => exact .default (ht ▸ hlast)
  | bottom => exact .bottom

theorem EndsIn.has_target? {t : FormTree} {id : String} (h : t.EndsIn p target)
    (hk : t.kind? target = some k) (hid : p.target? = some id) : t.has id = true := by
  cases h with
  | default => cases hid
  | bottom =>
    cases hid
    exact has_iff_kind?.2 ⟨k, hk⟩

namespace Besides

variable {t u v : FormTree} {id : String}

theorem refl (id : String) (t : FormTree) : t.Besides id t := ⟨fun _ => rfl, fun _ => rfl⟩

theorem trans (h : Besides id t u) (h' : Besides id u v) : Besides id t v :=
  ⟨fun c => (h'.siblings c).trans (h.siblings c), fun hx => (h'.shown? hx).trans (h.shown? hx)⟩

theorem update (t : FormTree) (id : String) (hf : Node.KeepsLinks f) :
    Besides id t (t.update id f) := by
  constructor
  · intro c
    rw [siblings_update t id hf]
  · intro x hx
    rw [FormTree.shown?, FormTree.shown?, node?_update, if_neg hx]

theorem insertNode (hid : t.node? id = none) (content : Content) :
    Besides id t (t.insertNode id content) := by
  constructor
  · intro c
    rw [siblings_insertNode hid]
  · intro x hx
    rw [FormTree.shown?, FormTree.shown?, node?_insertNode, if_neg hx]

end Besides

namespace Moved

variable {t u v : FormTree} {id : String} {c : Option String} {a : Anchor}

theorem besides (h : t.Moved u id c a) : Besides id t u := by
  constructor
  · exact h.order
  · intro x hx
    rw [shown?, shown?, h.others x hx, Option.map_map]
    rfl

theorem siblings_last (h : t.Moved u id c .last) (x : Option String) :
    u.siblings x = (t.siblings x).filter (· ≠ id) ++ if x = c then [id] else [] := by
  rw [← h.order]
  split
  · next hx =>
    obtain ⟨front, hfront⟩ := h.holds
    have honce := h.once
    rw [hfront, List.count_append, List.count_singleton_self, Nat.add_eq_right,
      List.count_eq_zero] at honce
    rw [hx, hfront, List.filter_append, filter_ne_eq_self honce]
    simp
  · next hx => rw [filter_ne_eq_self (h.only x hx), List.append_nil]

theorem shown?_self (h : t.Moved u id c a) : u.shown? id = t.shown? id := by
  obtain ⟨n, hn, hu⟩ := h.self
  rw [shown?_of_node? hn, shown?_of_node? hu]
  rfl

/-- A move to the end of a list, after edits of the same node. -/
theorem puts (h : u.Moved v id c .last) (ht : Besides id t u) (hs : u.shown? id = some s) :
    t.Puts v id c s := by
  constructor
  · intro x
    rw [h.siblings_last, ht.siblings]
  · intro x
    split
    · next hx => rw [hx, h.shown?_self, hs]
    · next hx => rw [h.besides.shown? hx, ht.shown? hx]

end Moved

namespace Puts

variable {t u : FormTree} {id : String} {c : Option String}

theorem update (h : t.Puts u id c s) (hf : Node.KeepsLinks f)
    (hs : (u.update id f).shown? id = some s') : t.Puts (u.update id f) id c s' := by
  constructor
  · intro x
    rw [siblings_update u id hf, h.siblings]
  · intro x
    split
    · next hx => rw [hx, hs]
    · next hx => rw [(Besides.update u id hf).shown? hx, h.shown?, if_neg hx]

/-- What all lists show afterwards, if a node that was there before was the same field. -/
theorem shownIn {loose : String → Prop} (h : t.Puts u id c s) (hl : t.Linked loose)
    (hs : ∀ x, s.fieldId? = some x → x = id)
    (hid : ∀ r, t.shown? id = some r → r.sameField s = true) (x : Option String) :
    u.shownIn x = (t.shownIn x).filter (fun r => !r.sameField s) ++ if x = c then [s] else [] := by
  have hself : u.shown? id = some s := by rw [h.shown?, if_pos rfl]
  have hlast : (if x = c then [id] else []).filterMap u.shown? = if x = c then [s] else [] := by
    split
    · rw [List.filterMap_cons_some hself, List.filterMap_nil]
    · rfl
  rw [FormTree.shownIn, FormTree.shownIn, h.siblings, List.filterMap_append, hlast,
    List.filterMap_filter, List.filter_filterMap]
  congr 1
  apply List.filterMap_congr
  intro y _
  by_cases hy : y = id
  · subst hy
    cases hr : t.shown? y with
    | none => simp
    | some r => simp [Option.filter_some, hid r hr]
  · rw [if_pos (decide_eq_true hy), h.shown?, if_neg hy]
    cases hr : t.shown? y with
    | none => rfl
    | some r =>
      have hother : r.sameField s = false := by
        rw [← Bool.not_eq_true, Shown.sameField_iff]
        rintro ⟨z, hz, hsz⟩
        obtain ⟨n, hn, rfl⟩ := Option.map_eq_some_iff.1 hr
        exact hy ((hl.keyed hn).symm.trans ((Content.fieldId?_shown.1 hz).2.symm.trans (hs z hsz)))
      simp [Option.filter_some, hother]

end Puts

namespace Linked

variable {t u v : FormTree} {loose : String → Prop}

/-- A move to the end of a container other than the node itself. -/
theorem moved_end (h : t.Linked loose) {id : String} (hn : t.node? id = some n)
    (hk : n.kind ≠ .tab) (hp : t.EndsIn p target) (hne : target ≠ id)
    (hu : t.place id p = .ok u) : t.Moved u id (some target) .last := by
  rw [FormTree.place, hn] at hu
  cases hp with
  | default hlast =>
    cases hu
    exact h.moved_toDefault hn hk hlast
  | bottom =>
    dsimp only at hu
    rw [if_neg (by simp [Position.target?, hne])] at hu
    obtain ⟨c, hc, rfl⟩ := exists_of_map_eq_ok hu
    obtain rfl := containerInside_eq hc
    exact h.moved_relocate hn (admits_of_containerInside hc) (by simp [Anchor.sibling?])

theorem besides_create (h : t.Linked loose) {id : String}
    (hp : ∀ name, content = .palette name → id = paletteId name) (hk : content.kind ≠ .tab)
    (ht : t.tabs ≠ []) (hu : t.create id content = .ok u) : Besides id t u := by
  rcases create_cases hu with ⟨rfl, _⟩ | ⟨hid, rfl⟩
  · exact .refl id u
  · have hmoved := (h.insertNode hid hp).moved_toDefault (node?_insertNode_self t id content) hk
      (List.getLast?_eq_some_getLast ht)
    exact (Besides.insertNode hid content).trans hmoved.besides

/-- What a node shows follows from its kind, its id and its slots. -/
theorem shown?_slots (h : u.Linked loose) {id : String} {content : Content}
    (hself : ∃ n, u.node? id = some n ∧ n.kind = content.kind)
    (hp : ∀ name, content = .palette name → id = paletteId name) (slots : Slots) :
    (u.update id fun n => { n with slots }).shown? id = some (content.shown id slots) := by
  obtain ⟨n, hn, hk⟩ := hself
  rw [shown?, node?_update, if_pos rfl, hn, Option.map_some, Option.map_some, Node.shown]
  dsimp only
  rw [h.keyed hn]
  congr 1
  apply Content.shown_of_kind hk
  intro name he
  obtain ⟨name', hc⟩ := Content.kind_palette (hk.trans (congrArg Content.kind he))
  have hid := h.palette_keyed hn (Node.palette?_eq_some_iff.2 hc)
  rw [hc, paletteId_injective (hid.symm.trans (hp name he))]

theorem fieldId?_of_shown? (h : t.Linked loose) {id : String} (hq : t.shown? id = some q)
    (hk : q.kind = .field) : q.fieldId? = some id := by
  obtain ⟨n, hn, rfl⟩ := Option.map_eq_some_iff.1 hq
  exact Content.fieldId?_shown.2 ⟨n.kind_shown.symm.trans hk, (h.keyed hn).symm⟩

/-- A node is created or found, gets slots, and goes to the end of a container. -/
theorem puts_place (h : t.Linked fun _ => False) (ht : t.tabs ≠ []) {id : String}
    {content : Content} (hp : ∀ name, content = .palette name → id = paletteId name)
    (hk : content.kind ≠ .tab) (he : t.EndsIn p target) (hne : target ≠ id)
    (hu : t.create id content = .ok u)
    (hv : (u.update id fun n => { n with slots }).place id p = .ok v) :
    t.Puts v id (some target) (content.shown id slots) := by
  have hlinked := h.create hp hu
  have hslots := Node.keepsLinks_slots slots
  have hself := h.create_self hp hu
  have hbesides := (h.besides_create hp hk ht hu).trans (.update u id hslots)
  have hshown := hlinked.shown?_slots hself hp slots
  obtain ⟨n, hn, hnk⟩ := hself
  have hn' : (u.update id fun n => { n with slots }).node? id = some { n with slots } := by
    rw [node?_update, if_pos rfl, hn, Option.map_some]
  have htabs := h.tabs_create hp hk ht hu
  have hends : (u.update id fun n => { n with slots }).EndsIn p target := he.mono htabs
  have hmoved := (hlinked.update id hslots).moved_end hn' (hnk ▸ hk) hends hne hv
  exact hmoved.puts hbesides hshown

theorem puts_lineBreak (h : t.Linked loose) {id : String} (he : t.EndsIn p target)
    (hne : target ≠ id) (hu : t.lineBreak p = (u, .ok id)) :
    t.Puts u id (some target) .lineBreak := by
  obtain ⟨rfl, hplace⟩ := lineBreak_ok_cases hu
  have hid : FormTree.node? { t with lineBreaks := t.nextLineBreak } (lineBreakId t.nextLineBreak) =
      none := t.node?_nextLineBreak
  have hnumbered : Besides (lineBreakId t.nextLineBreak) t { t with lineBreaks := t.nextLineBreak } :=
    ⟨fun _ => rfl, fun _ => rfl⟩
  have hself := node?_insertNode_self { t with lineBreaks := t.nextLineBreak }
    (lineBreakId t.nextLineBreak) .lineBreak
  have hmoved := h.insert_lineBreak.moved_end hself NodeKind.noConfusion (he.mono rfl) hne hplace
  exact hmoved.puts (hnumbered.trans (.insertNode hid .lineBreak)) (shown?_of_node? hself)

theorem puts_tab (h : t.Linked loose) {id : String} (hid : t.node? id = none)
    (hu : t.tab id = .ok u) (slots : Slots) :
    t.Puts (u.update id fun n => { n with slots }) id none (.tab slots) := by
  have hcreated : t.Puts u id none (.tab []) := by
    rcases create_cases hu with ⟨_, n, hn, _⟩ | ⟨_, rfl⟩
    · cases hid.symm.trans hn
    · have hself := node?_insertNode_self t id .tab
      have hlinked : (t.insertNode id .tab).Linked _ := h.insertNode hid (by simp)
      exact (hlinked.moved_toDefault_tab hself rfl).puts (.insertNode hid .tab)
        (shown?_of_node? hself)
  exact hcreated.update (Node.keepsLinks_slots slots)
    ((h.create (by simp) hu).shown?_slots (h.create_self (by simp) hu) (by simp) slots)

/-- The first tab that a tree adds itself has the default label. -/
theorem puts_ensureTab (h : t.Linked fun _ => False) (ht : t.tabs = []) :
    t.Puts t.ensureTab.1 t.ensureTab.2 none (.tab [t.defaultTabLabel]) := by
  have hid := t.node?_nextTabId
  have hself := node?_insertNode_self t t.nextTabId .tab
  have hlinked : (t.insertNode t.nextTabId .tab).Linked _ := h.insertNode hid (by simp)
  have hmoved : (t.insertNode t.nextTabId .tab).Moved (t.attachTab t.nextTabId) t.nextTabId none
      .last := hlinked.moved_relocate (c := none) hself rfl (by simp [Anchor.sibling?])
  rw [ensureTab_of_nil ht]
  apply (hmoved.puts (.insertNode hid .tab) (shown?_of_node? hself)).update
  · exact Node.keepsLinks_setLabel _
  · rw [shown?, node?_update, if_pos rfl, h.node?_attachTab hid, if_pos rfl]
    rfl

theorem map_shown_childNodes (t : FormTree) (id : String) :
    (t.childNodes id).map Node.shown = t.shownIn (some id) := by
  rw [childNodes, shownIn, siblings]
  cases t.node? id with
  | none => rfl
  | some n => exact List.map_filterMap

theorem childNodes_eq_nil (h : t.Linked loose) (hn : t.node? x = some n)
    (hk : n.kind.isContainer = false) : t.childNodes x = [] := by
  have hnil : n.children = [] := by
    apply List.eq_nil_iff_forall_not_mem.2
    intro c hc
    obtain ⟨n', m, hn', _, hcan⟩ := h.node_of_lists ⟨n, hn, hc⟩
    cases hn.symm.trans hn'
    cases hk' : n.kind <;> rw [hk'] at hk hcan <;> cases hk <;> cases hcan
  rw [childNodes, hn]
  dsimp only
  rw [hnil, List.filterMap_nil]

theorem ne_tab_of_mem_childNodes (h : t.Linked loose) (hc : n ∈ t.childNodes x) :
    ∃ y, t.node? y = some n ∧ n.kind ≠ .tab := by
  rw [childNodes] at hc
  split at hc
  · next m hm =>
    obtain ⟨y, hy, hn⟩ := List.mem_filterMap.1 hc
    obtain ⟨_, n', _, hn', hcan⟩ := h.node_of_lists ⟨m, hm, hy⟩
    cases hn.symm.trans hn'
    exact ⟨y, hn, NodeKind.ne_tab_of_canContain hcan⟩
  · cases hc

theorem flatMap_subtree (t : FormTree) (depth : Nat) (l : List String) :
    l.flatMap (t.subtree (depth + 1)) =
      (l.filterMap t.node?).flatMap fun n => n :: n.children.flatMap (t.subtree depth) := by
  induction l with
  | nil => rfl
  | cons x l ih =>
    rw [List.flatMap_cons, ih, subtree]
    cases hx : t.node? x with
    | none => rw [List.filterMap_cons_none hx, List.nil_append]
    | some n => rw [List.filterMap_cons_some hx, List.flatMap_cons]

theorem childNodes_eq (h : t.Linked loose) {l : List String} {n : Node}
    (hn : n ∈ l.filterMap t.node?) :
    t.childNodes n.id = n.children.filterMap t.node? := by
  obtain ⟨x, _, hx⟩ := List.mem_filterMap.1 hn
  rw [childNodes, h.keyed hx, hx]

/-- The form shows every node of the walk, and in the same order. -/
theorem flatten_form (h : t.Linked loose) : t.form.flatten = t.walk.map Node.shown := by
  rw [Form.flatten, form, walk, levels, flatMap_subtree, List.map_flatMap, List.flatMap_map]
  apply List.flatMap_congr
  intro n hn
  dsimp only
  rw [h.childNodes_eq hn, List.map_cons, flatMap_subtree, List.map_flatMap, List.flatMap_map]
  congr 1
  apply List.flatMap_congr
  intro m hm
  dsimp only
  rw [h.childNodes_eq hm, List.map_cons, flatMap_subtree]
  have hleaf (k : Node) : k.children.flatMap (t.subtree 0) = [] :=
    List.flatMap_eq_nil_iff.2 fun _ _ => rfl
  simp only [hleaf, List.flatMap_singleton']

end Linked

end FormTree

end FormLayout
