import FormLayout.Proofs.Layout.Append
/-!
Reading items that a tree was written as. No item is skipped, moved or refused, so the tree is
written as the same items again.
-/

namespace FormLayout
set_option autoImplicit true

theorem ofPart?_lineBreakId (n : Nat) : SpecialToken.ofPart? (lineBreakId n) ≠ none := by
  have hl : (lineBreakId n).toList =
      '-' :: '-' :: ("linebreak-".toList ++ (toString n).toList ++ ['-', '-']) := by
    rw [lineBreakId, String.toList_append, String.toList_append]
    rfl
  have ht : Text.Trimmed (lineBreakId n).toList := by
    rw [hl]
    constructor
    · simp; decide
    · rw [← List.cons_append, ← List.cons_append, List.getLast?_append_of_ne_nil _ (by simp)]
      simp; decide
  have hr : ("linebreak-".toList ++ (toString n).toList ++ ['-', '-']).reverse =
      '-' :: '-' :: ("linebreak-".toList ++ (toString n).toList).reverse := by
    rw [List.reverse_append]
    rfl
  rw [SpecialToken.ofPart?, ht.trim_eq, hl]
  simp only [hr]
  simp

namespace Item

def fieldIds (item : Item) : List String :=
  match item.kind with
  | .field id => [id]
  | .special _ => []

/-- The items that are written inside palettes. -/
inductive RegularInside (known : String → Prop) : Item → Prop where
  | field {id : String} {slots : Slots} : SpecialToken.ofPart? id = none → id ≠ "" → known id →
    Item.trimEnd (id :: slots) = id :: slots → RegularInside known (id :: slots)
  | lineBreak : RegularInside known [SpecialToken.lineBreak.dashed]

/-- The items that are written in tabs, where the palettes of a layout are as written. -/
inductive Regular (inside : String → Option (List Item)) (known : String → Prop) : Item → Prop where
  | tab {slots : Slots} :
    Item.trimEnd (SpecialToken.tab.dashed :: slots) = SpecialToken.tab.dashed :: slots →
    Regular inside known (SpecialToken.tab.dashed :: slots)
  | field {id : String} {slots : Slots} : SpecialToken.ofPart? id = none → id ≠ "" → known id →
    Item.trimEnd (id :: slots) = id :: slots → Regular inside known (id :: slots)
  | palette {slots : Slots} {name : String} {items : List Item} : slots ≠ [] →
    inside name = some items → (∀ i ∈ items, RegularInside known i) →
    Regular inside known (SpecialToken.palette.dashed :: (slots ++ [name]))

end Item

namespace Layout

/-- The items of a stored palette. -/
def Surroundings.inside? (around : Surroundings) (name : String) : Option (List Item) :=
  (around.palettes.get? name).map ShowItem.essence

/-- The ids of the fields and palettes that an item brings into a tree. -/
def Surroundings.ids (around : Surroundings) (item : Item) : List String :=
  match item.reference? with
  | some name => paletteId name :: ((around.inside? name).getD []).flatMap Item.fieldIds
  | none => item.fieldIds

/-- The palette that an item brings into a tree, with its items. -/
def Surroundings.shown (around : Surroundings) (item : Item) : List (String × List Item) :=
  (item.reference?.map fun name => (name, (around.inside? name).getD [])).toList

theorem Surroundings.ids_of_kind (around : Surroundings) {item : Item}
    (hk : item.kind ≠ .special .palette) : around.ids item = item.fieldIds := by
  rw [ids, Item.reference?_of_kind hk]

theorem Surroundings.shown_of_kind (around : Surroundings) {item : Item}
    (hk : item.kind ≠ .special .palette) : around.shown item = [] := by
  rw [shown, Item.reference?_of_kind hk]
  rfl

theorem Item.reference?_concat {slots : Slots} (name : String) (hs : slots ≠ []) :
    Item.reference? (SpecialToken.palette.dashed :: (slots ++ [name])) = some name := by
  obtain ⟨part, rest, rfl⟩ := List.exists_cons_of_ne_nil hs
  exact (Item.reference?_cons (Item.kind_special SpecialToken.ofPart?_palette _)).trans
    (congrArg some (List.getLastD_concat (l := part :: rest)))

theorem Surroundings.ids_of_reference {around : Surroundings} {item : Item} {name : String}
    {l : List Item} (href : item.reference? = some name) (hl : around.inside? name = some l) :
    around.ids item = paletteId name :: l.flatMap Item.fieldIds := by
  simp only [ids, href, hl, Option.getD_some]

theorem Surroundings.shown_of_reference {around : Surroundings} {item : Item} {name : String}
    {l : List Item} (href : item.reference? = some name) (hl : around.inside? name = some l) :
    around.shown item = [(name, l)] := by
  simp only [shown, href, hl, Option.getD_some, Option.map_some, Option.toList_some]

/-- The number of tabs that items open. -/
def tabCount (items : List Item) : Nat := items.countP fun i => i.kind = .special .tab

/-- A reading whose tree is written as the given items, with the given palettes, and has no other
fields and palettes than the given ones. -/
structure Reading.Shows (around : Surroundings) (label : String) (columns : Columns)
    (items : List Item) (palettes : List (String × List Item)) (ids : List String) (r : Reading) :
    Prop extends r.Sound around label where
  columns_eq : r.columns = columns
  tab_eq : r.tab = r.tree.tabs.getLast?
  items_eq : r.tree.items = items
  inside_eq {e : String × List Item} : e ∈ palettes → r.tree.inside (paletteId e.1) = e.2
  mem_ids {id : String} {n : Node} : r.tree.node? id = some n →
    n.kind = .field ∨ n.kind = .palette → id ∈ ids
  palette_node {e : String × List Item} : e ∈ palettes →
    ∃ n, r.tree.node? (paletteId e.1) = some n ∧ n.kind = .palette
  lineBreak_id {id : String} {n : Node} : r.tree.node? id = some n → n.kind = .lineBreak →
    ∃ k, id = lineBreakId k

namespace Reading.Shows

variable {around : Surroundings} {label : String} {columns : Columns} {items : List Item}
  {palettes : List (String × List Item)} {ids : List String} {r : Reading}

theorem node?_eq_none (h : r.Shows around label columns items palettes ids) {id : String}
    (hid : id ∉ ids) (htab : ∀ k < r.tree.tabs.length, id ≠ toString k)
    (hbreak : ∀ k, id ≠ lineBreakId k) : r.tree.node? id = none := by
  cases hn : r.tree.node? id with
  | none => rfl
  | some n =>
    cases hk : n.kind with
    | field => exact absurd (h.mem_ids hn (.inl hk)) hid
    | palette => exact absurd (h.mem_ids hn (.inr hk)) hid
    | lineBreak =>
      obtain ⟨k, hk⟩ := h.lineBreak_id hn hk
      exact absurd hk (hbreak k)
    | tab =>
      have hm := h.linked.mem_tabs.2 ⟨not_false, n, hn, hk⟩
      rw [h.numbered, List.mem_map] at hm
      obtain ⟨k, hlt, he⟩ := hm
      exact absurd he.symm (htab k (by simpa using hlt))

theorem started (h : r.Shows around label columns items palettes ids) (ht : r.tree.tabs ≠ []) :
    r.Started around label fun _ => False := by
  refine ⟨h.toSound, ht, fun {id} hid => ?_, False.elim⟩
  rw [h.tab_eq] at hid
  obtain ⟨_, n, hn, _⟩ := h.linked.mem_tabs.1 (List.mem_of_getLast? hid)
  exact FormTree.has_iff.2 ⟨n, hn⟩

theorem palette_ids (h : r.Shows around label columns items palettes ids)
    {e : String × List Item} (he : e ∈ palettes) : paletteId e.1 ∈ ids := by
  obtain ⟨n, hn, hk⟩ := h.palette_node he
  exact h.mem_ids hn (.inr hk)

theorem target_ne_paletteId (h : r.Shows around label columns items palettes ids) {tab : String}
    (hlast : r.tree.tabs.getLast? = some tab) (name : String) : paletteId name ≠ tab := by
  have hm := List.mem_of_getLast? hlast
  rw [h.numbered, List.mem_map] at hm
  obtain ⟨k, _, rfl⟩ := hm
  exact (toString_ne_paletteId k name).symm

theorem append (h : r.Shows around label columns items palettes ids) {r' : Reading}
    (ha : r.tree.Appends r'.tree target n) (hs : r'.Sound around label)
    (hc : r'.columns = r.columns) (ht : r'.tab = r.tab) (hid : r.tree.node? n.id = none)
    (hitems : r'.tree.items = items')
    (hinside : ∀ e ∈ palettes', r'.tree.inside (paletteId e.1) = e.2 ∧
      ∃ m, r.tree.node? (paletteId e.1) = some m ∧ m.kind = .palette)
    (hids : ∀ x ∈ ids, x ∈ ids') (hnode : n.kind = .field ∨ n.kind = .palette → n.id ∈ ids')
    (hbreak : n.kind = .lineBreak → ∃ k, n.id = lineBreakId k) :
    r'.Shows around label columns items' palettes' ids' where
  toSound := hs
  columns_eq := hc.trans h.columns_eq
  tab_eq := by rw [ht, ha.tabs, h.tab_eq]
  items_eq := hitems
  inside_eq he := (hinside _ he).1
  mem_ids {x m} hm hmk := by
    rcases ha.node_cases hm with ⟨rfl, rfl⟩ | ⟨k, hk, he⟩
    · exact hnode hmk
    · rw [he] at hmk
      exact hids x (h.mem_ids hk hmk)
  palette_node he := by
    obtain ⟨m, hm, hk⟩ := (hinside _ he).2
    obtain ⟨m', hm', hk'⟩ := ha.kind_of_ne (FormTree.Linked.ne_of_fresh hid hm) hm
    exact ⟨m', hm', hk'.trans hk⟩
  lineBreak_id {x m} hm hmk := by
    rcases ha.node_cases hm with ⟨rfl, rfl⟩ | ⟨k, hk, he⟩
    · exact hbreak hmk
    · rw [he] at hmk
      exact h.lineBreak_id hk hmk

/-- Items go to the end of the last tab. -/
theorem position_eq (h : r.Shows around label columns items palettes ids)
    (ht : r.tree.tabs ≠ []) : ∃ tab n, r.tree.tabs.getLast? = some tab ∧
      r.position = .bottom tab ∧ r.tree.node? tab = some n ∧ n.kind = .tab := by
  have hlast := List.getLast?_eq_some_getLast ht
  obtain ⟨_, n, hn, hk⟩ := h.linked.mem_tabs.1 (List.mem_of_getLast? hlast)
  exact ⟨_, n, hlast, by rw [Reading.position, h.tab_eq, hlast], hn, hk⟩

/-- A field or palette at the end of the last tab. -/
theorem append_tab (h : r.Shows around label columns items palettes ids) {r' : Reading}
    {tab : String} (ha : r.tree.Appends r'.tree tab n) (hs : r'.Sound around label)
    (hc : r'.columns = r.columns) (ht : r'.tab = r.tab) (hid : r.tree.node? n.id = none)
    (hlast : r.tree.tabs.getLast? = some tab) (hk : n.kind ≠ .lineBreak) :
    r'.Shows around label columns (items ++ (itemInTab? n).toList) palettes (ids ++ [n.id]) := by
  obtain ⟨_, m, hm, _⟩ := h.linked.mem_tabs.1 (List.mem_of_getLast? hlast)
  refine h.append ha hs hc ht hid ?_ (fun e he => ?_) (fun x hx => List.mem_append_left _ hx)
    (fun _ => by simp) (fun he => absurd he hk)
  · rw [ha.items_last_tab h.linked hid hlast, h.items_eq]
  · obtain ⟨k, hk, _⟩ := h.palette_node he
    rw [ha.inside_of_ne h.linked hid hm (FormTree.Linked.ne_of_fresh hid hk),
      if_neg (h.target_ne_paletteId hlast e.1), List.append_nil]
    exact ⟨h.inside_eq he, h.palette_node he⟩

/-- The lookup of a field changes nothing that the tree shows. -/
theorem ask (h : r.Shows around label columns items palettes ids) (id : String) :
    (r.ask around id).Shows around label columns items palettes ids := by
  rw [Reading.ask]
  split
  · exact ⟨⟨h.linked, h.numbered, h.holds⟩, h.columns_eq, h.tab_eq, h.items_eq, h.inside_eq, h.mem_ids,
      h.palette_node, h.lineBreak_id⟩
  · exact h

/-- An empty palette can be counted in. -/
theorem count (h : r.Shows around label columns items palettes ids) {name : String}
    (hi : r.tree.inside (paletteId name) = [])
    (hm : r.tree.node? (paletteId name) = some n) (hk : n.kind = .palette) :
    r.Shows around label columns items (palettes ++ [(name, [])]) ids where
  toSound := h.toSound
  columns_eq := h.columns_eq
  tab_eq := h.tab_eq
  items_eq := h.items_eq
  inside_eq {e} he := by
    rcases List.mem_append.1 he with he | he
    · exact h.inside_eq he
    · rw [List.mem_singleton.1 he]
      exact hi
  mem_ids := h.mem_ids
  palette_node {e} he := by
    rcases List.mem_append.1 he with he | he
    · exact h.palette_node he
    · rw [List.mem_singleton.1 he]
      exact ⟨n, hm, hk⟩
  lineBreak_id := h.lineBreak_id

/-- A field or line break at the end of the last palette. -/
theorem append_palette {name : String} {l : List Item}
    (h : r.Shows around label columns items (palettes ++ [(name, l)]) ids) {r' : Reading}
    (ha : r.tree.Appends r'.tree (paletteId name) n) (hs : r'.Sound around label)
    (hc : r'.columns = r.columns) (ht : r'.tab = r.tab) (hid : r.tree.node? n.id = none)
    (hne : ∀ e ∈ palettes, e.1 ≠ name) (hids : ∀ x ∈ ids, x ∈ ids')
    (hnode : n.kind ≠ .lineBreak → n.id ∈ ids')
    (hbreak : n.kind = .lineBreak → ∃ k, n.id = lineBreakId k) :
    r'.Shows around label columns items
      (palettes ++ [(name, l ++ (itemInPalette? n).toList)]) ids' := by
  obtain ⟨m, hp, hm⟩ := h.palette_node
    (List.mem_append_right palettes (List.mem_singleton_self (name, l)))
  refine h.append ha hs hc ht hid ?_ (fun e he => ?_) hids (fun hk => hnode ?_) hbreak
  · rw [ha.items_palette h.linked hid hp (by rw [hm]; simp), h.items_eq]
  · obtain ⟨k, hk, hkk⟩ : ∃ k, r.tree.node? (paletteId e.1) = some k ∧ k.kind = .palette := by
      rcases List.mem_append.1 he with he | he
      · exact h.palette_node (List.mem_append_left _ he)
      · rw [List.mem_singleton.1 he]
        exact ⟨m, hp, hm⟩
    refine ⟨?_, k, hk, hkk⟩
    rw [ha.inside_of_ne h.linked hid hp (FormTree.Linked.ne_of_fresh hid hk)]
    rcases List.mem_append.1 he with he | he
    · have hx : paletteId e.1 ≠ paletteId name := fun heq =>
        hne e he ((String.append_right_inj _).1 heq)
      rw [if_neg hx, List.append_nil, h.inside_eq (List.mem_append_left _ he)]
    · rw [List.mem_singleton.1 he, if_pos rfl,
        h.inside_eq (List.mem_append_right palettes (List.mem_singleton_self (name, l)))]
  · rcases hk with hk | hk <;> rw [hk] <;> simp

end Reading.Shows

namespace Step

variable {around : Surroundings} {label : String} {columns : Columns} {items : List Item}
  {palettes : List (String × List Item)} {ids : List String} {r : Reading}

/-- A known field that is new to the tree is appended to the container that it is put into. -/
theorem addField_append (h : r.Started around label kept) (inPalette : Bool) {id : String}
    (hid : r.tree.node? id = none) (hne : id ≠ "")
    (hc : around.config? r.columns id = some config) (slots : Slots)
    (ht : r.tree.node? target = some m) (hm : m.kind.canContain .field = true) :
    ∃ u, addField around inPalette id slots (.bottom target) r =
      .ok () { r.ask around id with tree := u } ∧
      r.tree.Appends u target ⟨id, slots, some target, [], .field config⟩ := by
  obtain ⟨u, v, hu, hv, ha⟩ := h.linked.create_append (.field config) hid
    (by rintro _ ⟨⟩) (by simp [Content.kind]) slots ht hm h.tabs_ne_nil
  refine ⟨v, ?_, ha⟩
  have hfield : r.tree.field? id = none := by rw [FormTree.field?, hid]; rfl
  rw [addField_eq, if_neg hne, hfield, if_neg (by simp), hc]
  dsimp only
  rw [placeField_eq, put_eq, Reading.tree_ask, hu]
  dsimp only
  rw [hv]

theorem fieldItem_of_trimEnd {item : Item} {id : String} {slots : Slots} (hi : item.Plain)
    (he : item.trimEnd = id :: slots) (parent : Option String) (config : Fields) :
    fieldItem ⟨id, item.drop 1, parent, [], .field config⟩ = item.trimEnd := by
  cases item with
  | nil => exact absurd rfl hi.ne_nil
  | cons first rest =>
    rw [Item.trimEnd, List.cons.injEq] at he
    rw [fieldItem, List.drop_one, List.tail_cons, he.1]

/-- A field of a stored palette, as it stands there. -/
theorem addPaletteField_shows {name id : String} {l : List Item} {item : Item} {slots : Slots}
    (h : r.Shows around label columns items (palettes ++ [(name, l)]) ids)
    (ht : r.tree.tabs ≠ []) (hi : item.Plain) (he : item.trimEnd = id :: slots)
    (hspecial : SpecialToken.ofPart? id = none) (hid : id ≠ "")
    (hknown : (around.config? columns id).isSome = true) (hne : ∀ e ∈ palettes, e.1 ≠ name)
    (hnew : id ∉ ids) (hnum : ∀ k < r.tree.tabs.length, id ≠ toString k) :
    ∃ r', addPaletteItem around name item r = .ok () r' ∧ r'.tree.tabs = r.tree.tabs ∧
      r'.Shows around label columns items (palettes ++ [(name, l ++ [id :: slots])])
        (ids ++ [id]) := by
  have hstarted := h.started ht
  obtain ⟨m, hm, hmk⟩ :=
    h.palette_node (List.mem_append_right palettes (List.mem_singleton_self (name, l)))
  have hkind : item.kind = .field id := by
    rw [← Item.kind_trimEnd, he, Item.kind_field hspecial]
  have hfresh := h.node?_eq_none hnew hnum fun k hk => ofPart?_lineBreakId k (hk ▸ hspecial)
  obtain ⟨config, hconfig⟩ := Option.isSome_iff_exists.1 hknown
  obtain ⟨u, hu, ha⟩ := addField_append hstarted true hfresh hid
    (by rw [h.columns_eq]; exact hconfig) (item.drop 1) hm (by rw [hmk]; rfl)
  have hplain : Text.Plain id := by
    have hf := hi.first
    rwa [(Item.kind_eq_field_iff.1 hkind).2] at hf
  have hsound := (ends_addField true hplain hspecial
    (fun s hs => hi.parts s (List.mem_of_mem_drop hs)) _ hstarted).ok hu
  have hitem : itemInPalette? ⟨id, item.drop 1, some (paletteId name), [], .field config⟩ =
      some (id :: slots) := by
    rw [itemInPalette?, fieldItem_of_trimEnd hi he, he]
  refine ⟨_, by rw [addPaletteItem_field around name hkind, hu], ha.tabs, ?_⟩
  have hgrown : { r.ask around id with tree := u }.Shows around label columns items _
      (ids ++ [id]) :=
    (h.ask id).append_palette (by rw [Reading.tree_ask]; exact ha) hsound.toSound rfl rfl
      (by rw [Reading.tree_ask]; exact hfresh) hne (fun x hx => List.mem_append_left _ hx)
      (fun _ => by simp) (by rintro ⟨⟩)
  rwa [hitem] at hgrown

/-- A line break of a stored palette. -/
theorem addPaletteLineBreak_shows {name : String} {l : List Item} {item : Item}
    (h : r.Shows around label columns items (palettes ++ [(name, l)]) ids)
    (ht : r.tree.tabs ≠ []) (hkind : item.kind = .special .lineBreak)
    (hne : ∀ e ∈ palettes, e.1 ≠ name) :
    ∃ r', addPaletteItem around name item r = .ok () r' ∧ r'.tree.tabs = r.tree.tabs ∧
      r'.Shows around label columns items
        (palettes ++ [(name, l ++ [[SpecialToken.lineBreak.dashed]])]) ids := by
  obtain ⟨m, hm, hmk⟩ :=
    h.palette_node (List.mem_append_right palettes (List.mem_singleton_self (name, l)))
  obtain ⟨u, hu, ha⟩ := h.linked.lineBreak_append hm (by rw [hmk]; rfl)
  have hstep : lineBreak (.bottom (paletteId name)) r = .ok () { r with tree := u } := by
    rw [lineBreak_eq, hu]
  have hsound := (ends_lineBreak (.bottom (paletteId name)) (h.started ht) fun x hx => by
    cases hx
    exact FormTree.has_iff.2 ⟨m, hm⟩).ok hstep
  refine ⟨_, by rw [addPaletteItem_lineBreak around name hkind, hstep], ha.tabs, ?_⟩
  exact h.append_palette ha hsound.toSound rfl rfl r.tree.node?_nextLineBreak hne
    (fun x hx => hx) (fun hk => absurd rfl hk) fun _ => ⟨_, rfl⟩

/-- A blank item of a stored palette adds nothing. -/
theorem addPaletteItem_blank (around : Surroundings) (name : String) {item : Item}
    (hi : item.trimEnd = [""]) (r : Reading) : addPaletteItem around name item r = .ok () r := by
  rw [addPaletteItem_field around name (Item.kind_of_blank hi), addField_eq, if_pos rfl]

/-- One item of a stored palette, as it stands there. -/
theorem addPaletteItem_shows {name : String} {l : List Item} {item : Item}
    (h : r.Shows around label columns items (palettes ++ [(name, l)]) ids)
    (ht : r.tree.tabs ≠ []) (hi : item.Plain)
    (hr : ∀ i ∈ ShowItem.trimmed [item],
      Item.RegularInside (fun id => (around.config? columns id).isSome) i)
    (hne : ∀ e ∈ palettes, e.1 ≠ name)
    (hnew : ∀ id ∈ (ShowItem.trimmed [item]).flatMap Item.fieldIds, id ∉ ids)
    (hnum : ∀ id ∈ (ShowItem.trimmed [item]).flatMap Item.fieldIds,
      ∀ k < r.tree.tabs.length, id ≠ toString k) :
    ∃ r', addPaletteItem around name item r = .ok () r' ∧ r'.tree.tabs = r.tree.tabs ∧
      r'.Shows around label columns items (palettes ++ [(name, l ++ ShowItem.trimmed [item])])
        (ids ++ (ShowItem.trimmed [item]).flatMap Item.fieldIds) := by
  by_cases hblank : item.trimEnd = [""]
  · refine ⟨r, addPaletteItem_blank around name hblank r, rfl, ?_⟩
    rw [ShowItem.trimmed_blank hblank, List.append_nil, List.flatMap_nil, List.append_nil]
    exact h
  · rw [ShowItem.trimmed_singleton hblank, List.flatMap_singleton] at hnew hnum ⊢
    have hreg := hr _ (by rw [ShowItem.trimmed_singleton hblank]; exact List.mem_singleton_self _)
    generalize he : item.trimEnd = trimmed at *
    cases hreg with
    | @field id slots hspecial hid hknown _ =>
      have hids : Item.fieldIds (id :: slots) = [id] := by
        rw [Item.fieldIds, Item.kind_field hspecial]
      rw [hids] at hnew hnum ⊢
      exact addPaletteField_shows h ht hi he hspecial hid hknown hne
        (hnew id (List.mem_singleton_self id)) (hnum id (List.mem_singleton_self id))
    | lineBreak =>
      have hkind : item.kind = .special .lineBreak := by
        rw [← Item.kind_trimEnd, he, kind_lineBreakItem]
      have hids : Item.fieldIds [SpecialToken.lineBreak.dashed] = [] := by
        rw [Item.fieldIds, kind_lineBreakItem]
      rw [hids, List.append_nil]
      exact addPaletteLineBreak_shows h ht hkind hne

/-- The items of a stored palette in turn. -/
theorem forM_addPaletteItem_shows {name : String} {l todo : List Item}
    (h : r.Shows around label columns items (palettes ++ [(name, l)]) ids)
    (ht : r.tree.tabs ≠ []) (hi : ∀ i ∈ todo, i.Plain)
    (hr : ∀ i ∈ ShowItem.trimmed todo,
      Item.RegularInside (fun id => (around.config? columns id).isSome) i)
    (hne : ∀ e ∈ palettes, e.1 ≠ name)
    (hnew : (ids ++ (ShowItem.trimmed todo).flatMap Item.fieldIds).Nodup)
    (hnum : ∀ id ∈ (ShowItem.trimmed todo).flatMap Item.fieldIds,
      ∀ k < r.tree.tabs.length, id ≠ toString k) :
    ∃ r', todo.forM (addPaletteItem around name) r = .ok () r' ∧ r'.tree.tabs = r.tree.tabs ∧
      r'.Shows around label columns items (palettes ++ [(name, l ++ ShowItem.trimmed todo)])
        (ids ++ (ShowItem.trimmed todo).flatMap Item.fieldIds) := by
  induction todo generalizing r l ids with
  | nil => exact ⟨r, rfl, rfl, by simpa [ShowItem.trimmed] using h⟩
  | cons item rest ih =>
    rw [ShowItem.trimmed_cons] at hr hnew hnum ⊢
    rw [List.flatMap_append] at hnew hnum ⊢
    rw [← List.append_assoc] at hnew
    have hfirst := (List.nodup_append.1 (List.nodup_append.1 hnew).1).2.2
    obtain ⟨r₁, hr₁, htabs₁, h₁⟩ := addPaletteItem_shows h ht (hi item List.mem_cons_self)
      (fun i hm => hr i (List.mem_append_left _ hm)) hne
      (fun id hid hm => hfirst id hm id hid rfl) fun id hid => hnum id (List.mem_append_left _ hid)
    obtain ⟨r₂, hr₂, htabs₂, h₂⟩ := ih h₁ (by rw [htabs₁]; exact ht)
      (fun i hm => hi i (List.mem_cons_of_mem _ hm)) (fun i hm => hr i (List.mem_append_right _ hm))
      hnew fun id hid => by rw [htabs₁]; exact hnum id (List.mem_append_right _ hid)
    refine ⟨r₂, ?_, htabs₂.trans htabs₁, ?_⟩
    · rw [forM_cons_eq, hr₁]
      exact hr₂
    · rwa [List.append_assoc, List.append_assoc] at h₂

theorem openTab_shows (h : r.Shows around label columns items palettes ids) {slots : Slots}
    (hi : Item.Plain (SpecialToken.tab.dashed :: slots))
    (htrim : Item.trimEnd (SpecialToken.tab.dashed :: slots) = SpecialToken.tab.dashed :: slots)
    (hnew : toString r.tree.tabs.length ∉ ids) :
    ∃ r', openTab (SpecialToken.tab.dashed :: slots) r = .ok () r' ∧
      r'.tree.tabs.length = r.tree.tabs.length + 1 ∧
      r'.Shows around label columns (items ++ [SpecialToken.tab.dashed :: slots]) palettes ids := by
  have hid : r.tree.node? (toString r.tree.tabs.length) = none :=
    h.node?_eq_none hnew (fun k hk he => absurd (toString_nat_injective he) (Nat.ne_of_gt hk))
      fun k => toString_ne_lineBreakId _ k
  have hcreate : r.tree.tab (toString r.tree.tabs.length) =
      .ok (r.tree.attachTab (toString r.tree.tabs.length)) := by
    rw [FormTree.tab, FormTree.create, hid]
    rfl
  have hnode := h.linked.node?_openTab hid slots
  have hkids {x} (hx : x ≠ toString r.tree.tabs.length) :=
    h.linked.childNodes_openTab hid slots hx
  have hitems := h.linked.items_openTab hid slots
  have htabs := h.linked.tabs_attachTab hid
  have hstep : openTab (SpecialToken.tab.dashed :: slots) r = .ok ()
      { r with
        tree := (r.tree.attachTab (toString r.tree.tabs.length)).update
          (toString r.tree.tabs.length) fun n => { n with slots }
        tab := some (toString r.tree.tabs.length) } := by
    simp only [openTab_eq, hcreate]
    rfl
  refine ⟨_, hstep, ?_, ?_⟩
  · rw [FormTree.tabs_update, htabs, List.length_append]
    rfl
  · have hsound := (ends_openTab hi h.toSound).ok hstep
    refine ⟨hsound.toSound, h.columns_eq, ?_, ?_, ?_, ?_, ?_, ?_⟩
    · rw [FormTree.tabs_update, htabs, List.getLast?_concat]
    · rw [hitems, h.items_eq, tabItem, htrim]
    · intro e he
      rw [FormTree.inside, hkids (toString_ne_paletteId _ _).symm]
      exact h.inside_eq he
    · intro x n hx hk
      rw [hnode] at hx
      split at hx
      · cases hx
        rcases hk with hk | hk <;> cases hk
      · exact h.mem_ids hx hk
    · intro e he
      rw [hnode, if_neg (toString_ne_paletteId _ _).symm]
      exact h.palette_node he
    · intro x n hx hk
      rw [hnode] at hx
      split at hx
      · cases hx
        cases hk
      · exact h.lineBreak_id hx hk

theorem addField_shows (h : r.Shows around label columns items palettes ids)
    (ht : r.tree.tabs ≠ []) {id : String} {slots : Slots} (hi : Item.Plain (id :: slots))
    (hspecial : SpecialToken.ofPart? id = none) (hne : id ≠ "")
    (hknown : (around.config? columns id).isSome = true)
    (htrim : Item.trimEnd (id :: slots) = id :: slots) (hnew : id ∉ ids)
    (hnum : ∀ k < r.tree.tabs.length, id ≠ toString k) :
    ∃ r', addItem around (id :: slots) r = .ok () r' ∧ r'.tree.tabs = r.tree.tabs ∧
      r'.Shows around label columns (items ++ [id :: slots]) palettes (ids ++ [id]) := by
  obtain ⟨tab, m, hlast, hpos, hm, hmk⟩ := h.position_eq ht
  have hfresh := h.node?_eq_none hnew hnum fun k hk => ofPart?_lineBreakId k (hk ▸ hspecial)
  obtain ⟨config, hconfig⟩ := Option.isSome_iff_exists.1 hknown
  obtain ⟨u, hu, ha⟩ := addField_append (h.started ht) false hfresh hne
    (by rw [h.columns_eq]; exact hconfig) slots hm (by rw [hmk]; rfl)
  have hsound := (ends_addField false (hi.parts id List.mem_cons_self) hspecial
    (fun s hs => hi.parts s (List.mem_cons_of_mem _ hs)) (.bottom tab) (h.started ht)).ok hu
  have hkind := Item.kind_field hspecial slots
  refine ⟨_, by rw [addItem_field around hkind, hpos]; exact hu, ha.tabs, ?_⟩
  have hgrown : { r.ask around id with tree := u }.Shows around label columns _ palettes
      (ids ++ [id]) :=
    (h.ask id).append_tab (by rw [Reading.tree_ask]; exact ha) hsound.toSound rfl rfl
      (by rw [Reading.tree_ask]; exact hfresh) (by rw [Reading.tree_ask]; exact hlast) (by rintro ⟨⟩)
  have hitem : itemInTab? ⟨id, slots, some tab, [], .field config⟩ = some (id :: slots) := by
    rw [itemInTab?, fieldItem, htrim]
  rwa [hitem] at hgrown

theorem addPalette_shows (h : r.Shows around label columns items palettes ids)
    (ht : r.tree.tabs ≠ []) {slots : Slots} {name : String} {l : List Item}
    (hi : Item.Plain (SpecialToken.palette.dashed :: (slots ++ [name]))) (hslots : slots ≠ [])
    (hinside : around.inside? name = some l)
    (hl : ∀ i ∈ l, Item.RegularInside (fun id => (around.config? columns id).isSome) i)
    (hnew : (ids ++ paletteId name :: l.flatMap Item.fieldIds).Nodup)
    (hnum : ∀ id ∈ l.flatMap Item.fieldIds, ∀ k < r.tree.tabs.length, id ≠ toString k) :
    ∃ r', addItem around (SpecialToken.palette.dashed :: (slots ++ [name])) r = .ok () r' ∧
      r'.tree.tabs = r.tree.tabs ∧
      r'.Shows around label columns (items ++ [SpecialToken.palette.dashed :: (slots ++ [name])])
        (palettes ++ [(name, l)]) (ids ++ paletteId name :: l.flatMap Item.fieldIds) := by
  obtain ⟨tab, m, hlast, hpos, hm, hmk⟩ := h.position_eq ht
  obtain ⟨showItem, hshow, rfl⟩ := Option.map_eq_some_iff.1 hinside
  have hnewid : paletteId name ∉ ids := fun hm =>
    (List.nodup_append.1 hnew).2.2 _ hm _ List.mem_cons_self rfl
  have hfresh := h.node?_eq_none hnewid (fun k _ => (toString_ne_paletteId k name).symm)
    fun k => (lineBreakId_ne_paletteId k name).symm
  obtain ⟨u, v, hu, hv, ha⟩ := h.linked.create_append (.palette name) hfresh
    (by rintro _ ⟨⟩; rfl) (by simp [Content.kind]) slots hm (by rw [hmk]; rfl) ht
  have hput : put (paletteId name) (.palette name) slots r.position r =
      .ok () { r with tree := v } := by
    rw [put_eq, hu, hpos]
    dsimp only
    rw [hv]
  have hplain : ∀ s ∈ slots, Text.Plain s := fun s hs =>
    hi.parts s (List.mem_cons_of_mem _ (List.mem_append_left _ hs))
  have hname : Text.Plain name :=
    hi.parts name (List.mem_cons_of_mem _ (List.mem_append_right _ (List.mem_singleton_self _)))
  have hsound := (ends_put (by simp [Content.kind]) (by rintro _ ⟨⟩; rfl) hplain r.position
    (h.started ht) fun _ => Node.read_palette hname (Option.isSome_of_eq_some hshow)).ok hput
  have h₁ : { r with tree := v }.Shows around label columns _ palettes (ids ++ [paletteId name]) :=
    h.append_tab ha hsound.toSound rfl rfl hfresh hlast (by rintro ⟨⟩)
  have hitem : itemInTab? ⟨paletteId name, slots, some tab, [], .palette name⟩ =
      some (SpecialToken.palette.dashed :: (slots ++ [name])) := by
    simp [itemInTab?, paletteItem, hslots]
  rw [hitem] at h₁
  have h₂ := h₁.count ha.inside_self ha.node?_self rfl
  obtain ⟨r', hr', htabs, h₃⟩ := forM_addPaletteItem_shows h₂ (by rw [ha.tabs]; exact ht)
    (fun i hm => (ShowItem.plain_of_mem_parse hm).1) hl
    (fun e he heq => hnewid (heq ▸ h.palette_ids he)) (by rw [List.append_assoc]; exact hnew)
    (by rw [ha.tabs]; exact hnum)
  refine ⟨r', ?_, htabs.trans ha.tabs, by rwa [List.append_assoc] at h₃⟩
  obtain ⟨part, rest, rfl⟩ := List.exists_cons_of_ne_nil hslots
  have hlastD : (part :: (rest ++ [name])).getLastD "" = name :=
    List.getLastD_concat (l := part :: rest)
  have hdrop : (part :: (rest ++ [name])).dropLast = part :: rest := by
    rw [← List.cons_append, List.dropLast_concat]
  have hnone : (r.tree.palette? name).isSome = false := by
    rw [FormTree.palette?, hfresh]
    rfl
  rw [addItem_palette around (Item.kind_special SpecialToken.ofPart?_palette _), List.cons_append,
    addPalette_eq]
  simp only [hlastD, hdrop, hshow, hnone, Bool.false_eq_true, if_false, bind_eq, hput]
  exact hr'

theorem addItem_shows {item : Item} (h : r.Shows around label columns items palettes ids)
    (hi : item.Plain)
    (hr : Item.Regular around.inside? (fun id => (around.config? columns id).isSome) item)
    (ht : r.tree.tabs ≠ [] ∨ item.kind = .special .tab) (hnew : (ids ++ around.ids item).Nodup)
    (hnum : ∀ id ∈ ids ++ around.ids item,
      ∀ k < r.tree.tabs.length + tabCount [item], id ≠ toString k) :
    ∃ r', addItem around item r = .ok () r' ∧ r'.tree.tabs ≠ [] ∧
      r'.tree.tabs.length = r.tree.tabs.length + tabCount [item] ∧
      r'.Shows around label columns (items ++ [item]) (palettes ++ around.shown item)
        (ids ++ around.ids item) := by
  cases hr with
  | @tab slots htrim =>
    have hk := Item.kind_special SpecialToken.ofPart?_tab slots
    have hcount : tabCount [SpecialToken.tab.dashed :: slots] = 1 := by simp [tabCount, hk]
    rw [around.ids_of_kind (by rw [hk]; simp), Item.fieldIds, hk, hcount, List.append_nil] at hnum
    obtain ⟨r₁, hr₁, hlen, h₁⟩ := openTab_shows h hi htrim fun hm => hnum _ hm _ (by omega) rfl
    refine ⟨r₁, by rw [addItem_tab around hk, hr₁], ?_, by omega, ?_⟩
    · exact List.ne_nil_of_length_pos (by omega)
    · rw [around.ids_of_kind (by rw [hk]; simp), around.shown_of_kind (by rw [hk]; simp),
        Item.fieldIds, hk]
      simpa using h₁
  | @field id slots hspecial hne hknown htrim =>
    have hk := Item.kind_field hspecial slots
    have hcount : tabCount [id :: slots] = 0 := by simp [tabCount, hk]
    have hids : around.ids (id :: slots) = [id] := by
      rw [around.ids_of_kind (by rw [hk]; simp), Item.fieldIds, hk]
    have htabs := ht.resolve_right (by rw [hk]; simp)
    rw [hids] at hnew hnum ⊢
    have hnewid : id ∉ ids := fun hm =>
      (List.nodup_append.1 hnew).2.2 id hm id (List.mem_singleton_self id) rfl
    obtain ⟨r₁, hr₁, ht₁, h₁⟩ := addField_shows h htabs hi hspecial hne hknown htrim hnewid
      fun k hk => hnum id (by simp) k (by omega)
    refine ⟨r₁, hr₁, by rwa [ht₁], by rw [ht₁, hcount]; rfl, ?_⟩
    rwa [around.shown_of_kind (by rw [hk]; simp), List.append_nil]
  | @palette slots name l hslots hinside hl =>
    have hk := Item.kind_special SpecialToken.ofPart?_palette (slots ++ [name])
    have hcount : tabCount [SpecialToken.palette.dashed :: (slots ++ [name])] = 0 := by
      simp [tabCount, hk]
    have htabs := ht.resolve_right (by rw [hk]; simp)
    have href := Item.reference?_concat name hslots
    rw [around.ids_of_reference href hinside] at hnew hnum ⊢
    obtain ⟨r₁, hr₁, ht₁, h₁⟩ := addPalette_shows h htabs hi hslots hinside hl hnew fun id hm k hk =>
      hnum id (List.mem_append_right _ (List.mem_cons_of_mem _ hm)) k (by omega)
    refine ⟨r₁, hr₁, by rwa [ht₁], by rw [ht₁, hcount]; rfl, ?_⟩
    rwa [around.shown_of_reference href hinside]

/-- Items in tabs in turn. -/
theorem forM_addItem_shows {todo : List Item}
    (h : r.Shows around label columns items palettes ids) (hi : ∀ i ∈ todo, i.Plain)
    (hr : ∀ i ∈ todo,
      Item.Regular around.inside? (fun id => (around.config? columns id).isSome) i)
    (ht : r.tree.tabs ≠ [] ∨ startsWithTab todo = true)
    (hnew : (ids ++ todo.flatMap around.ids).Nodup)
    (hnum : ∀ id ∈ ids ++ todo.flatMap around.ids,
      ∀ k < r.tree.tabs.length + tabCount todo, id ≠ toString k) :
    ∃ r', todo.forM (addItem around) r = .ok () r' ∧ r'.tree.tabs ≠ [] ∧
      r'.Shows around label columns (items ++ todo) (palettes ++ todo.flatMap around.shown)
        (ids ++ todo.flatMap around.ids) := by
  induction todo generalizing r items palettes ids with
  | nil => exact ⟨r, rfl, ht.resolve_right (by simp [startsWithTab]), by simpa using h⟩
  | cons item rest ih =>
    rw [List.flatMap_cons, ← List.append_assoc] at hnew hnum
    have hcount : tabCount (item :: rest) = tabCount [item] + tabCount rest := by
      rw [tabCount, ← List.singleton_append, List.countP_append]
      rfl
    obtain ⟨r₁, hr₁, ht₁, hlen, h₁⟩ := addItem_shows h (hi item List.mem_cons_self)
      (hr item List.mem_cons_self) (ht.imp_right fun hs => by simpa [startsWithTab] using hs)
      (List.nodup_append.1 hnew).1
      fun id hm k hk => hnum id (List.mem_append_left _ hm) k (by omega)
    obtain ⟨r₂, hr₂, ht₂, h₂⟩ := ih h₁ (fun i hm => hi i (List.mem_cons_of_mem _ hm))
      (fun i hm => hr i (List.mem_cons_of_mem _ hm)) (.inl ht₁) hnew
      fun id hm k hk => hnum id hm k (by omega)
    refine ⟨r₂, ?_, ht₂, ?_⟩
    · rw [forM_cons_eq, hr₁]
      exact hr₂
    · simpa [List.append_assoc] using h₂

end Step

/-- Regular items that bring every node once, and none under the number of a tab. -/
structure Readable (around : Surroundings) (columns : Columns) (items : List Item) : Prop where
  plain : ∀ i ∈ items, i.Plain
  regular : ∀ i ∈ items,
    Item.Regular around.inside? (fun id => (around.config? columns id).isSome) i
  starts : startsWithTab items = true
  nodup : (items.flatMap around.ids).Nodup
  numbers : ∀ id ∈ items.flatMap around.ids, ∀ k < tabCount items, id ≠ toString k

/-- Readable items are read without any addition to the columns, and written as they were. -/
theorem fill_readable {around : Surroundings} {columns : Columns} {items : List Item}
    (h : Readable around columns items) (tree : FormTree) :
    ∃ r, fill around items ⟨tree, columns, none, []⟩ = .ok () r ∧
      r.Shows around tree.defaultTabLabel columns items (items.flatMap around.shown)
        (items.flatMap around.ids) := by
  have hstart : (⟨tree.reset, columns, none, []⟩ : Reading).Shows around tree.defaultTabLabel
      columns [] [] [] :=
    ⟨⟨FormTree.Linked.reset _, rfl, rfl, (nomatch ·)⟩, rfl, rfl, rfl, (nomatch ·), (nomatch ·),
      (nomatch ·), (nomatch ·)⟩
  obtain ⟨r, hr, ht, hs⟩ := Step.forM_addItem_shows hstart h.plain h.regular (.inr h.starts)
    h.nodup (by simpa [FormTree.reset] using h.numbers)
  refine ⟨r, ?_, hs⟩
  rw [fill_eq, h.starts, if_pos rfl, takeIn, Step.bind_eq, hr]
  dsimp only
  rw [Step.ensureTab_eq, FormTree.ensureTab_of_ne_nil ht]

end Layout

end FormLayout
