import FormLayout.Layout.Writing
import FormLayout.Proofs.Form.Contents
/-!
The items that a tree is written as, in the tabs and in each palette, and how they grow when a node
is appended to a container.
-/

namespace FormLayout
set_option autoImplicit true

namespace Item

/-- The palette that an item refers to. -/
def reference? (item : Item) : Option String :=
  if item.kind = .special .palette then
    match item with
    | _ :: part :: rest => some ((part :: rest).getLastD "")
    | _ => none
  else none

theorem reference?_of_kind {item : Item} (hk : item.kind ≠ .special .palette) :
    item.reference? = none := if_neg hk

theorem reference?_cons (hk : kind (lead :: part :: rest) = .special .palette) :
    reference? (lead :: part :: rest) = some ((part :: rest).getLastD "") := if_pos hk

theorem kind_special (h : SpecialToken.ofPart? lead = some token) (rest : List String) :
    kind (lead :: rest) = .special token := by
  rw [kind, first, List.headD_cons, h]

theorem kind_field (h : SpecialToken.ofPart? lead = none) (rest : List String) :
    kind (lead :: rest) = .field lead := by
  rw [kind, first, List.headD_cons, h]

end Item

namespace SpecialToken

theorem ofPart?_tab : ofPart? tab.dashed = some tab := by decide +kernel

theorem ofPart?_palette : ofPart? palette.dashed = some palette := by decide +kernel

theorem ofPart?_lineBreak : ofPart? lineBreak.dashed = some lineBreak := by decide +kernel

theorem plain_tab : Text.Plain tab.dashed := by decide +kernel

theorem plain_palette : Text.Plain palette.dashed := by decide +kernel

theorem plain_lineBreak : Text.Plain lineBreak.dashed := by decide +kernel

end SpecialToken

namespace Layout

theorem kind_tabItem (n : Node) : (tabItem n).kind = .special .tab := by
  rw [tabItem, Item.kind_trimEnd, Item.kind_special SpecialToken.ofPart?_tab]

theorem kind_fieldItem (h : SpecialToken.ofPart? n.id = none) :
    (fieldItem n).kind = .field n.id := by
  rw [fieldItem, Item.kind_trimEnd, Item.kind_field h]

theorem kind_paletteItem (n : Node) (name : String) :
    (paletteItem n name).kind = .special .palette :=
  Item.kind_special SpecialToken.ofPart?_palette _

theorem kind_lineBreakItem : Item.kind [SpecialToken.lineBreak.dashed] = .special .lineBreak :=
  Item.kind_special SpecialToken.ofPart?_lineBreak _

theorem reference?_paletteItem (n : Node) (name : String) :
    (paletteItem n name).reference? = some name := by
  have hk := kind_paletteItem n name
  rw [paletteItem] at hk ⊢
  generalize (if n.slots.isEmpty = true then [""] else n.slots) = slots at hk ⊢
  cases slots with
  | nil => exact Item.reference?_cons hk
  | cons part rest =>
    exact (Item.reference?_cons hk).trans (congrArg some (List.getLastD_concat (l := part :: rest)))

theorem plain_tabItem (h : Node.Plain n) : (tabItem n).Plain :=
  (Item.Plain.cons SpecialToken.plain_tab h.slots).trimEnd

theorem plain_fieldItem (h : Node.Plain n) (hc : n.content = .field config) :
    (fieldItem n).Plain :=
  (Item.Plain.cons (h.field hc).1 h.slots).trimEnd

theorem plain_paletteItem (h : Node.Plain n) (hc : n.content = .palette name) :
    (paletteItem n name).Plain := by
  refine .cons SpecialToken.plain_palette fun s hs => ?_
  rcases List.mem_append.1 hs with hs | hs
  · split at hs
    · rw [List.mem_singleton.1 hs]
      exact Text.plain_empty
    · exact h.slots s hs
  · rw [List.mem_singleton.1 hs]
    exact h.palette hc

theorem itemInTab?_cases (hi : itemInTab? n = some item) :
    (∃ config, n.content = .field config ∧ item = fieldItem n) ∨
      ∃ name, n.content = .palette name ∧ item = paletteItem n name := by
  cases hc : n.content <;> simp only [itemInTab?, hc] at hi <;> cases hi
  case field config => exact .inl ⟨config, rfl, rfl⟩
  case palette name => exact .inr ⟨name, rfl, rfl⟩

theorem itemInPalette?_cases (hi : itemInPalette? n = some item) :
    (∃ config, n.content = .field config ∧ item = fieldItem n) ∨
      n.content = .lineBreak ∧ item = [SpecialToken.lineBreak.dashed] := by
  cases hc : n.content <;> simp only [itemInPalette?, hc] at hi <;> cases hi
  case field config => exact .inl ⟨config, rfl, rfl⟩
  case lineBreak => exact .inr ⟨rfl, rfl⟩

theorem fieldItem_ne (h : Node.Plain n) (hc : n.content = .field config) :
    fieldItem n ≠ [""] := by
  intro he
  have hf : Item.first (fieldItem n) = n.id := Item.first_trimEnd _
  rw [he] at hf
  exact (h.field hc).2.1 hf.symm

end Layout

namespace FormTree

/-- The items of all tabs. -/
def items (t : FormTree) : List Item := t.tabNodes.flatMap t.itemsOfTab

/-- The items inside a palette. -/
def inside (t : FormTree) (id : String) : List Item :=
  (t.childNodes id).filterMap Layout.itemInPalette?

theorem layout_showItem (t : FormTree) : t.layout.showItem = ShowItem.text t.items := rfl

theorem paletteShowItem_eq (t : FormTree) (n : Node) :
    t.paletteShowItem n = ShowItem.text (t.inside n.id) := rfl

theorem mem_tabNodes {t : FormTree} (h : n ∈ t.tabNodes) : ∃ id, t.node? id = some n := by
  obtain ⟨id, _, hn⟩ := List.mem_filterMap.1 h
  exact ⟨id, hn⟩

theorem mem_childNodes {t : FormTree} {id : String} (h : n ∈ t.childNodes id) :
    ∃ id, t.node? id = some n := by
  rw [childNodes] at h
  split at h
  · obtain ⟨c, _, hn⟩ := List.mem_filterMap.1 h
    exact ⟨c, hn⟩
  · cases h

variable {t : FormTree}

/-- What an item of a tree is written for: a tab, or what stands in one. -/
inductive Writes (t : FormTree) : Item → Prop where
  | tab {id : String} {n : Node} : t.node? id = some n → Writes t (Layout.tabItem n)
  | field {id : String} {n : Node} {config : Fields} : t.node? id = some n →
    n.content = .field config → Writes t (Layout.fieldItem n)
  | palette {id name : String} {n : Node} : t.node? id = some n → n.content = .palette name →
    Writes t (Layout.paletteItem n name)

/-- What an item inside a palette is written for. -/
inductive WritesInside (t : FormTree) : Item → Prop where
  | field {id : String} {n : Node} {config : Fields} : t.node? id = some n →
    n.content = .field config → WritesInside t (Layout.fieldItem n)
  | lineBreak : WritesInside t [SpecialToken.lineBreak.dashed]

theorem writes_of_mem {item : Item} (h : item ∈ t.items) : t.Writes item := by
  obtain ⟨tab, ht, h⟩ := List.mem_flatMap.1 h
  rcases List.mem_cons.1 h with rfl | h
  · obtain ⟨_, hn⟩ := mem_tabNodes ht
    exact .tab hn
  · obtain ⟨n, hc, hi⟩ := List.mem_filterMap.1 h
    obtain ⟨_, hn⟩ := mem_childNodes hc
    rcases Layout.itemInTab?_cases hi with ⟨config, hc, rfl⟩ | ⟨name, hc, rfl⟩
    · exact .field hn hc
    · exact .palette hn hc

theorem writesInside_of_mem {id : String} {item : Item} (h : item ∈ t.inside id) :
    t.WritesInside item := by
  obtain ⟨n, hc, hi⟩ := List.mem_filterMap.1 h
  obtain ⟨_, hn⟩ := mem_childNodes hc
  rcases Layout.itemInPalette?_cases hi with ⟨config, hc, rfl⟩ | ⟨_, rfl⟩
  · exact .field hn hc
  · exact .lineBreak

theorem Holds.plain_items (h : t.Holds label Node.Plain) : ∀ item ∈ t.items, item.Plain := by
  intro item hi
  cases writes_of_mem hi with
  | tab hn => exact Layout.plain_tabItem (h.nodes hn)
  | field hn hc => exact Layout.plain_fieldItem (h.nodes hn) hc
  | palette hn hc => exact Layout.plain_paletteItem (h.nodes hn) hc

theorem Holds.plain_inside (h : t.Holds label Node.Plain) (id : String) :
    ∀ item ∈ t.inside id, item.Plain := by
  intro item hi
  cases writesInside_of_mem hi with
  | field hn hc => exact Layout.plain_fieldItem (h.nodes hn) hc
  | lineBreak => exact .cons SpecialToken.plain_lineBreak (by simp)

theorem Holds.items_ne (h : t.Holds label Node.Plain) : ∀ item ∈ t.items, item ≠ [""] := by
  intro item hi
  cases writes_of_mem hi with
  | @tab _ n _ =>
    intro he
    exact absurd (he ▸ Layout.kind_tabItem n) (by decide +kernel)
  | field hn hc => exact Layout.fieldItem_ne (h.nodes hn) hc
  | palette _ _ => simp [Layout.paletteItem]

theorem Holds.inside_ne (h : t.Holds label Node.Plain) (id : String) :
    ∀ item ∈ t.inside id, item ≠ [""] := by
  intro item hi
  cases writesInside_of_mem hi with
  | field hn hc => exact Layout.fieldItem_ne (h.nodes hn) hc
  | lineBreak => decide +kernel

theorem trimEnd_inside (t : FormTree) (id : String) :
    ∀ item ∈ t.inside id, Item.trimEnd item = item := by
  intro item hi
  cases writesInside_of_mem hi with
  | field _ _ => exact Item.trimEnd_trimEnd _
  | lineBreak => rfl

/-- The show item of a tree reads as its items. -/
theorem Holds.parse_showItem (h : t.Holds label Node.Plain) :
    ShowItem.parse t.layout.showItem = t.items := by
  rw [layout_showItem, ShowItem.parse_text h.plain_items]
  exact List.filter_eq_self.2 fun item hm => by simpa using h.items_ne item hm

theorem Holds.parse_inside (h : t.Holds label Node.Plain) (id : String) :
    ShowItem.parse (ShowItem.text (t.inside id)) = t.inside id := by
  rw [ShowItem.parse_text (h.plain_inside id)]
  exact List.filter_eq_self.2 fun item hm => by simpa using h.inside_ne id item hm

theorem Holds.essence_inside (h : t.Holds label Node.Plain) (id : String) :
    ShowItem.essence (ShowItem.text (t.inside id)) = t.inside id :=
  ShowItem.essence_text (h.plain_inside id) (t.trimEnd_inside id) (h.inside_ne id)

/-- The palettes that a tree writes are those that its items refer to, in the same order. -/
theorem Linked.layout_palettes (h : t.Linked loose) (hp : t.Holds label Node.Plain) :
    t.layout.palettes = Entries.ofList (t.items.filterMap fun item =>
      item.reference?.map fun name => (name, ShowItem.text (t.inside (paletteId name)))) := by
  rw [layout, palettes, items, List.filterMap_flatMap, List.filterMap_flatMap]
  refine congrArg Entries.ofList (List.flatMap_congr fun tab _ => ?_)
  rw [itemsOfTab, List.filterMap_cons_none, List.filterMap_filterMap]
  · refine List.filterMap_congr fun n hn => ?_
    obtain ⟨_, hn⟩ := mem_childNodes hn
    cases hc : n.content with
    | tab => simp [Node.palette?, Layout.itemInTab?, hc]
    | lineBreak => simp [Node.palette?, Layout.itemInTab?, hc]
    | field config =>
      have hk := Layout.kind_fieldItem ((hp.nodes hn).field hc).2.2
      simp [Node.palette?, Layout.itemInTab?, hc, Item.reference?, hk]
    | palette name =>
      have hid := h.palette_keyed hn (Node.palette?_eq_some_iff.2 hc)
      rw [← h.keyed hn] at hid
      simp [Node.palette?, Layout.itemInTab?, hc, Layout.reference?_paletteItem, paletteShowItem_eq,
        hid]
  · rw [Item.reference?_of_kind (by rw [Layout.kind_tabItem]; simp), Option.map_none]

theorem Linked.get?_layout_palettes (h : t.Linked loose) (hp : t.Holds label Node.Plain)
    {item : Item} (hi : item ∈ t.items) (hr : item.reference? = some name) :
    t.layout.palettes.get? name = some (ShowItem.text (t.inside (paletteId name))) := by
  rw [h.layout_palettes hp]
  refine Entries.get?_ofList_of_forall ?_ fun w hw => ?_
  · refine List.mem_filterMap.2 ⟨item, hi, ?_⟩
    rw [hr, Option.map_some]
  · obtain ⟨_, _, hw⟩ := List.mem_filterMap.1 hw
    obtain ⟨_, _, he⟩ := Option.map_eq_some_iff.1 hw
    cases he
    rfl

theorem Linked.mem_names_palettes (h : t.Linked loose) (hp : t.Holds label Node.Plain) {item : Item}
    (hi : item ∈ t.items) (hr : item.reference? = some name) : name ∈ t.layout.palettes.names :=
  Entries.mem_names_iff.2 ⟨_, h.get?_layout_palettes hp hi hr⟩

theorem Linked.mem_layout_palettes (h : t.Linked loose) (hp : t.Holds label Node.Plain) :
    ∀ e ∈ t.layout.palettes, (∃ item ∈ t.items, item.reference? = some e.1) ∧
      e.2 = ShowItem.text (t.inside (paletteId e.1)) := by
  intro e he
  rw [h.layout_palettes hp] at he
  obtain ⟨item, hi, hr⟩ := List.mem_filterMap.1 (Entries.mem_of_mem_ofList he)
  obtain ⟨name, href, rfl⟩ := Option.map_eq_some_iff.1 hr
  exact ⟨⟨item, hi, href⟩, rfl⟩

end FormTree

end FormLayout
