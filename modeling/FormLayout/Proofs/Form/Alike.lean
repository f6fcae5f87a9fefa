import FormLayout.Layout.Writing
import FormLayout.Proofs.Form.Kinds
import Mathlib.Data.List.Forall2
/-!
Trees that are written the same way. Of the slots of a tab or a field those that are empty and at
the end are not written, so trees that differ in them only are alike. Each operation takes alike
trees to alike trees, or refuses both for the same reason.
-/

namespace FormLayout
set_option autoImplicit true

theorem filterMap_eq_of_forall₂ {R : α → β → Prop} {f : α → Option γ} {g : β → Option γ}
    (h : List.Forall₂ R l r) (hf : ∀ a b, R a b → f a = g b) : l.filterMap f = r.filterMap g := by
  induction h with
  | nil => rfl
  | cons hr _ ih => rw [List.filterMap_cons, List.filterMap_cons, hf _ _ hr, ih]

theorem flatMap_eq_of_forall₂ {R : α → β → Prop} {f : α → List γ} {g : β → List γ}
    (h : List.Forall₂ R l r) (hf : ∀ a b, R a b → f a = g b) : l.flatMap f = r.flatMap g := by
  induction h with
  | nil => rfl
  | cons hr _ ih => rw [List.flatMap_cons, List.flatMap_cons, hf _ _ hr, ih]

theorem forall₂_filterMap {R : β → γ → Prop} {f : α → Option β} {g : α → Option γ} (l : List α)
    (h : ∀ a, Option.Rel R (f a) (g a)) : List.Forall₂ R (l.filterMap f) (l.filterMap g) := by
  have hl : List.Forall₂ Eq l l := List.forall₂_refl l
  refine List.rel_filterMap ?_ hl
  rintro a _ rfl
  exact h a

namespace Slots

/-- Drops the empty slots at the end. -/
def trimEnd (slots : Slots) : Slots := (slots.reverse.dropWhile (· = "")).reverse

theorem trimEnd_cons (slot : String) (slots : Slots) : trimEnd (slot :: slots) =
    if trimEnd slots = [] ∧ slot = "" then [] else slot :: trimEnd slots := by
  rw [trimEnd, trimEnd, List.reverse_cons, List.dropWhile_append]
  by_cases hs : slots.reverse.dropWhile (· = "") = []
  · by_cases he : slot = "" <;> simp [hs, he]
  · simp [hs]

theorem trimEnd_tail (slots : Slots) : trimEnd slots.tail = (trimEnd slots).tail := by
  cases slots with
  | nil => rfl
  | cons slot rest =>
    rw [trimEnd_cons]
    split
    · next h => exact h.1
    · rfl

theorem put_zero (slots : Slots) (value : String) : slots.put 0 value = value :: slots.tail := by
  cases slots <;> simp [put]

theorem trimEnd_put_zero {slots slots' : Slots} (h : slots.trimEnd = slots'.trimEnd)
    (value : String) : trimEnd (slots.put 0 value) = trimEnd (slots'.put 0 value) := by
  rw [put_zero, put_zero, trimEnd_cons, trimEnd_cons, trimEnd_tail, trimEnd_tail, h]

end Slots

/-- Nodes that are written the same way. All slots of a palette count, as its name is written after
them. -/
structure Node.Alike (m n : Node) : Prop where
  id : m.id = n.id
  parent : m.parent = n.parent
  children : m.children = n.children
  content : m.content = n.content
  slots : m.slots.trimEnd = n.slots.trimEnd
  palette_slots : m.kind = .palette → m.slots = n.slots

namespace Node.Alike

variable {m n : Node}

theorem refl (n : Node) : n.Alike n := ⟨rfl, rfl, rfl, rfl, rfl, fun _ => rfl⟩

theorem kind (h : m.Alike n) : m.kind = n.kind := congrArg Content.kind h.content

theorem setLabel (h : m.Alike n) (label : String) :
    (m.setLabel (some label)).Alike (n.setLabel (some label)) :=
  ⟨h.id, h.parent, h.children, h.content, Slots.trimEnd_put_zero h.slots label,
    fun hk => congrArg (Slots.put · 0 label) (h.palette_slots hk)⟩

theorem tabItem (h : m.Alike n) : Layout.tabItem m = Layout.tabItem n :=
  congrArg (List.cons SpecialToken.tab.dashed) h.slots

theorem fieldItem (h : m.Alike n) : Layout.fieldItem m = Layout.fieldItem n := by
  have hslots : m.id :: m.slots.trimEnd = n.id :: n.slots.trimEnd := by rw [h.id, h.slots]
  exact hslots

theorem itemInTab? (h : m.Alike n) : Layout.itemInTab? m = Layout.itemInTab? n := by
  rw [Layout.itemInTab?, Layout.itemInTab?, ← h.content, h.fieldItem]
  cases hc : m.content with
  | palette name =>
    dsimp only
    rw [Layout.paletteItem, Layout.paletteItem, h.palette_slots (by rw [Node.kind, hc]; rfl)]
  | field config => rfl
  | tab => rfl
  | lineBreak => rfl

theorem itemInPalette? (h : m.Alike n) : Layout.itemInPalette? m = Layout.itemInPalette? n := by
  rw [Layout.itemInPalette?, Layout.itemInPalette?, h.content, h.fieldItem]

theorem palette? (h : m.Alike n) : m.palette? = n.palette? := by
  rw [Node.palette?, Node.palette?, h.content]

end Node.Alike

namespace FormTree

/-- Trees that are written the same way, and in which every operation does the same. -/
structure Alike (t u : FormTree) : Prop where
  tabs : t.tabs = u.tabs
  node? (id : String) : Option.Rel Node.Alike (t.node? id) (u.node? id)
  size : t.size = u.size
  defaultTabLabel : t.defaultTabLabel = u.defaultTabLabel
  lineBreaks : t.lineBreaks = u.lineBreaks

/-- Alike trees, or the same refusal. -/
inductive AlikeResult : Except Error FormTree → Except Error FormTree → Prop where
  | ok : t.Alike u → AlikeResult (.ok t) (.ok u)
  | error (e : Error) : AlikeResult (.error e) (.error e)

theorem AlikeResult.cases (h : AlikeResult x y) :
    (∃ t u, x = .ok t ∧ y = .ok u ∧ t.Alike u) ∨ ∃ e, x = .error e ∧ y = .error e := by
  cases h with
  | ok h => exact .inl ⟨_, _, rfl, rfl, h⟩
  | error e => exact .inr ⟨e, rfl, rfl⟩

namespace Alike

variable {t u : FormTree}

theorem refl (t : FormTree) : t.Alike t := by
  refine ⟨rfl, fun id => ?_, rfl, rfl, rfl⟩
  cases t.node? id with
  | none => exact .none
  | some n => exact .some (Node.Alike.refl n)

theorem node?_cases (h : t.Alike u) (id : String) : t.node? id = none ∧ u.node? id = none ∨
    ∃ m n, t.node? id = some m ∧ u.node? id = some n ∧ m.Alike n := by
  have hr := h.node? id
  generalize t.node? id = x, u.node? id = y at hr ⊢
  cases hr with
  | none => exact .inl ⟨rfl, rfl⟩
  | some hmn => exact .inr ⟨_, _, rfl, rfl, hmn⟩

theorem has (h : t.Alike u) (id : String) : t.has id = u.has id := by
  rw [Bool.eq_iff_iff, has_iff, has_iff]
  rcases h.node?_cases id with ⟨ht, hu⟩ | ⟨m, n, ht, hu, _⟩
  · simp [ht, hu]
  · simp [ht, hu]

theorem kind? (h : t.Alike u) (id : String) : t.kind? id = u.kind? id := by
  rw [FormTree.kind?, FormTree.kind?]
  rcases h.node?_cases id with ⟨ht, hu⟩ | ⟨m, n, ht, hu, hmn⟩
  · rw [ht, hu]
  · rw [ht, hu, Option.map_some, Option.map_some, hmn.kind]

theorem parent (h : t.Alike u) (id : String) :
    (t.node? id).bind Node.parent = (u.node? id).bind Node.parent := by
  rcases h.node?_cases id with ⟨ht, hu⟩ | ⟨m, n, ht, hu, hmn⟩
  · rw [ht, hu]
  · rw [ht, hu, Option.bind_some, Option.bind_some, hmn.parent]

theorem update (h : t.Alike u) (id : String)
    (hf : ∀ m n, t.node? id = some m → m.Alike n → (f m).Alike (g n)) :
    (t.update id f).Alike (u.update id g) := by
  refine ⟨h.tabs, fun x => ?_, ?_, h.defaultTabLabel, h.lineBreaks⟩
  · rw [node?_update, node?_update]
    split
    · next he =>
      subst he
      rcases h.node?_cases x with ⟨ht, hu⟩ | ⟨m, n, ht, hu, hmn⟩
      · rw [ht, hu]
        exact .none
      · rw [ht, hu]
        exact .some (hf m n ht hmn)
    · exact h.node? x
  · simp only [FormTree.size, FormTree.update, Entries.update, List.length_map]
    exact h.size

/-- Slots that differ at their ends only, on a node that is no palette. -/
theorem write (h : t.Alike u) (id : String) {slots slots' : Slots}
    (hs : slots.trimEnd = slots'.trimEnd)
    (hk : ∀ n, t.node? id = some n → n.kind = .palette → slots = slots') :
    (t.update id fun n => { n with slots }).Alike
      (u.update id fun n => { n with slots := slots' }) :=
  h.update id fun m _ hm hmn => { hmn with slots := hs, palette_slots := hk m hm }

theorem numbering (h : t.Alike u) (n : Nat) :
    { t with lineBreaks := n }.Alike { u with lineBreaks := n } :=
  { h with lineBreaks := rfl }

theorem reset (h : t.Alike u) : t.reset.Alike u.reset :=
  { h with tabs := rfl, node? := fun _ => .none, size := rfl }

theorem detach (h : t.Alike u) (id : String) : (t.detach id).Alike (u.detach id) := by
  rw [FormTree.detach, FormTree.detach, h.parent]
  split
  · next parent _ =>
    refine (h.update id fun m n _ hmn => ?_).update parent fun m n _ hmn => ?_
    · exact { hmn with parent := rfl }
    · exact { hmn with children := congrArg (·.filter (· ≠ id)) hmn.children }
  · exact { h with tabs := congrArg (·.filter (· ≠ id)) h.tabs }

theorem attach (h : t.Alike u) (id : String) (c : Option String) (a : Anchor) :
    (t.attach id c a).Alike (u.attach id c a) := by
  cases c with
  | some parent =>
    refine (h.update parent fun m n _ hmn => ?_).update id fun m n _ hmn => ?_
    · exact { hmn with children := congrArg (a.insert id) hmn.children }
    · exact { hmn with parent := rfl }
  | none => exact { h with tabs := congrArg (a.insert id) h.tabs }

theorem relocate (h : t.Alike u) (id : String) (c : Option String) (a : Anchor) :
    (t.relocate id c a).Alike (u.relocate id c a) :=
  (h.detach id).attach id c a

theorem insertNode (h : t.Alike u) (id : String) (content : Content) :
    (t.insertNode id content).Alike (u.insertNode id content) := by
  refine ⟨h.tabs, fun x => ?_, ?_, h.defaultTabLabel, h.lineBreaks⟩
  · rw [node?_insertNode, node?_insertNode]
    split
    · exact .some (Node.Alike.refl _)
    · exact h.node? x
  · have hsize (s : FormTree) : (s.insertNode id content).size =
        if s.has id then s.size else s.size + 1 := Entries.length_put s.nodes id _
    rw [hsize, hsize, h.has, h.size]

theorem nextTabId (h : t.Alike u) : t.nextTabId = u.nextTabId := by
  rw [FormTree.nextTabId, FormTree.nextTabId, h.tabs, h.size]
  simp only [h.has]

theorem nextLineBreak (h : t.Alike u) : t.nextLineBreak = u.nextLineBreak := by
  rw [FormTree.nextLineBreak, FormTree.nextLineBreak, h.lineBreaks, h.size]
  simp only [h.has]

theorem ensureTab (h : t.Alike u) :
    t.ensureTab.1.Alike u.ensureTab.1 ∧ t.ensureTab.2 = u.ensureTab.2 := by
  cases ht : t.tabs.getLast? with
  | some tab =>
    rw [ensureTab_of_mem ht, ensureTab_of_mem (h.tabs ▸ ht)]
    exact ⟨h, rfl⟩
  | none =>
    have hnil : t.tabs = [] := List.getLast?_eq_none_iff.1 ht
    rw [ensureTab_of_nil hnil, ensureTab_of_nil (h.tabs ▸ hnil), h.nextTabId, h.defaultTabLabel]
    have hnew := (h.insertNode u.nextTabId .tab).relocate u.nextTabId none .last
    exact ⟨hnew.update _ fun m n _ hmn => hmn.setLabel _, rfl⟩

theorem moveToDefault (h : t.Alike u) (id : String) (kind : NodeKind) :
    (t.moveToDefault id kind).Alike (u.moveToDefault id kind) := by
  by_cases hk : kind = .tab
  · rw [FormTree.moveToDefault, FormTree.moveToDefault, if_pos hk, if_pos hk]
    exact h.relocate id none .last
  · obtain ⟨halike, hid⟩ := h.ensureTab
    rw [moveToDefault_of_ne_tab hk, moveToDefault_of_ne_tab hk, hid]
    exact halike.relocate id _ .last

theorem containerInside (h : t.Alike u) (kind : NodeKind) (target : String) :
    t.containerInside kind target = u.containerInside kind target := by
  rw [FormTree.containerInside, FormTree.containerInside]
  rcases h.node?_cases target with ⟨ht, hu⟩ | ⟨m, n, ht, hu, hmn⟩
  · rw [ht, hu]
  · rw [ht, hu]
    dsimp only
    rw [hmn.kind]

theorem containerBeside (h : t.Alike u) (kind : NodeKind) (sibling : String) :
    t.containerBeside kind sibling = u.containerBeside kind sibling := by
  rw [FormTree.containerBeside, FormTree.containerBeside]
  rcases h.node?_cases sibling with ⟨ht, hu⟩ | ⟨m, n, ht, hu, hmn⟩
  · rw [ht, hu]
  · rw [ht, hu]
    simp only [hmn.parent, h.containerInside]

/-- A move into a container that was asked for. -/
theorem relocate_map (h : t.Alike u) (id : String) (a : Anchor)
    (c : Except Error (Option String)) :
    AlikeResult (c.map fun c => t.relocate id c a) (c.map fun c => u.relocate id c a) := by
  cases c with
  | error e => exact .error e
  | ok c => exact .ok (h.relocate id c a)

theorem place (h : t.Alike u) (id : String) (p : Position) :
    AlikeResult (t.place id p) (u.place id p) := by
  rw [FormTree.place, FormTree.place]
  rcases h.node?_cases id with ⟨ht, hu⟩ | ⟨m, n, ht, hu, hmn⟩
  · rw [ht, hu]
    exact .error _
  · rw [ht, hu]
    dsimp only
    split
    · exact .ok h
    · simp only [hmn.kind, h.containerInside, h.containerBeside]
      cases p with
      | default => exact .ok (h.moveToDefault id n.kind)
      | top target => exact h.relocate_map id _ _
      | bottom target => exact h.relocate_map id _ _
      | before target => exact h.relocate_map id _ _
      | after target => exact h.relocate_map id _ _

theorem create (h : t.Alike u) (id : String) (content : Content) :
    AlikeResult (t.create id content) (u.create id content) := by
  rw [FormTree.create, FormTree.create]
  rcases h.node?_cases id with ⟨ht, hu⟩ | ⟨m, n, ht, hu, hmn⟩
  · rw [ht, hu]
    exact .ok ((h.insertNode id content).moveToDefault id content.kind)
  · rw [ht, hu]
    dsimp only
    rw [hmn.kind]
    split
    · exact .ok h
    · exact .error _

theorem lineBreak (h : t.Alike u) (p : Position) :
    (t.lineBreak p).1.Alike (u.lineBreak p).1 ∧ (t.lineBreak p).2 = (u.lineBreak p).2 := by
  have hn := h.numbering u.nextLineBreak
  have hp := (hn.insertNode (lineBreakId u.nextLineBreak) .lineBreak).place
    (lineBreakId u.nextLineBreak) p
  rw [FormTree.lineBreak, FormTree.lineBreak, h.nextLineBreak]
  rcases hp.cases with ⟨v, w, hv, hw, hvw⟩ | ⟨e, hv, hw⟩
  · rw [hv, hw]
    exact ⟨hvw, rfl⟩
  · rw [hv, hw]
    exact ⟨hn, rfl⟩

theorem tabNodes (h : t.Alike u) : List.Forall₂ Node.Alike t.tabNodes u.tabNodes := by
  rw [FormTree.tabNodes, FormTree.tabNodes, h.tabs]
  exact forall₂_filterMap u.tabs h.node?

theorem childNodes (h : t.Alike u) (id : String) :
    List.Forall₂ Node.Alike (t.childNodes id) (u.childNodes id) := by
  rw [FormTree.childNodes, FormTree.childNodes]
  rcases h.node?_cases id with ⟨ht, hu⟩ | ⟨m, n, ht, hu, hmn⟩
  · rw [ht, hu]
    exact .nil
  · rw [ht, hu]
    dsimp only
    rw [hmn.children]
    exact forall₂_filterMap n.children h.node?

theorem itemsOfTab (h : t.Alike u) (hmn : m.Alike n) : t.itemsOfTab m = u.itemsOfTab n := by
  rw [FormTree.itemsOfTab, FormTree.itemsOfTab, hmn.tabItem, hmn.id,
    filterMap_eq_of_forall₂ (h.childNodes n.id) fun _ _ hc => hc.itemInTab?]

theorem paletteShowItem (h : t.Alike u) (hmn : m.Alike n) :
    t.paletteShowItem m = u.paletteShowItem n := by
  rw [FormTree.paletteShowItem, FormTree.paletteShowItem, hmn.id,
    filterMap_eq_of_forall₂ (h.childNodes n.id) fun _ _ hc => hc.itemInPalette?]

theorem palettes (h : t.Alike u) : t.palettes = u.palettes := by
  have hnodes : List.Forall₂ Node.Alike (t.tabNodes.flatMap fun tab => t.childNodes tab.id)
      (u.tabNodes.flatMap fun tab => u.childNodes tab.id) := by
    refine List.rel_flatMap h.tabNodes fun m n hmn => ?_
    rw [hmn.id]
    exact h.childNodes n.id
  rw [FormTree.palettes, FormTree.palettes]
  refine congrArg _ (filterMap_eq_of_forall₂ hnodes fun m n hmn => ?_)
  rw [hmn.palette?, h.paletteShowItem hmn]

/-- Alike trees are written the same way. -/
theorem layout (h : t.Alike u) : t.layout = u.layout := by
  rw [FormTree.layout, FormTree.layout, h.palettes,
    flatMap_eq_of_forall₂ h.tabNodes fun _ _ hmn => h.itemsOfTab hmn]

end Alike

end FormTree

end FormLayout
