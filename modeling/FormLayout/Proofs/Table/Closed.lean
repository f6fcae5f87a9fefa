import FormLayout.Proofs.Layout.RoundTrip
import FormLayout.Proofs.Table.Columns
import FormLayout.Proofs.Table.Expansion
import FormLayout.Proofs.Table.Frame
/-!
Compiled documents are closed: the palettes and columns that the types refer to are in the document,
whatever was done to the trees before.
-/

namespace FormLayout
set_option autoImplicit true
open Palette Value

/-- Every field that a layout names is known. Items without a name stand for no field. -/
def ShowItem.Names (known : List String) (s : String) : Prop :=
  ∀ item ∈ parse s, ∀ id, item.kind = .field id → id ≠ "" → id ∈ known

theorem ShowItem.Names.of_essence_eq (h : Names known s) (he : essence s = essence s') :
    Names known s' := by
  intro item hi id hk hne
  have htrim : item.trimEnd ∈ essence s := by
    rw [he, essence, trimmed, List.mem_filter]
    refine ⟨List.mem_map_of_mem hi, ?_⟩
    have hfirst := (Item.first_trimEnd item).trans (Item.kind_eq_field_iff.1 hk).2
    apply decide_eq_true
    intro hblank
    rw [hblank] at hfirst
    exact hne hfirst.symm
  obtain ⟨own, hown, hsame⟩ := List.mem_map.1 (List.mem_filter.1 htrim).1
  apply h own hown id _ hne
  rw [← Item.kind_trimEnd, hsame, Item.kind_trimEnd, hk]

namespace Palette

variable {known : List String} {canonical : Bool} {shared : Palettes} {name layout : String}

/-- A palette is stored, and the fields in it are known. -/
def Knows (known : List String) (shared : Palettes) (name : String) : Prop :=
  ∃ layout, shared.get? name = some layout ∧ ShowItem.Names known layout

/-- What is stored replaces a palette by one with known fields, or stands for the same fields. -/
theorem knows_stored {other : String} (hl : ShowItem.Names known layout)
    (h : other = name ∨ Knows known shared other) :
    Knows known (stored canonical shared name layout) other := by
  by_cases hx : other = name
  · obtain ⟨existing, hget, hsame⟩ := holds_iff.1 (holds_stored canonical shared name layout)
    rw [hx]
    exact ⟨existing, hget, hl.of_essence_eq (essence_eq_of_sameLayout hsame).symm⟩
  · obtain ⟨l, hget, hnames⟩ := h.resolve_left hx
    exact ⟨l, (get?_stored_of_ne hx).trans hget, hnames⟩

/-- Folding palettes with known fields in keeps those that were known, and each reference ends at a
known one. -/
theorem knows_addAll (canonical : Bool) (typeKey : String) (start : Palettes) (showItem : String)
    {own : Palettes} (hd : own.Distinct) (hown : ∀ e ∈ own, ShowItem.Names known e.2) :
    let f := addAll canonical typeKey ⟨start, showItem, []⟩ own
    (∀ name, Knows known start name → Knows known f.shared name) ∧
      ∀ name ∈ own.names, Knows known f.shared (follow f.renamed name) := by
  induction own using List.reverseRecOn with
  | nil => exact ⟨fun _ h => h, fun _ hm => (nomatch hm)⟩
  | append_singleton init last ih =>
    obtain ⟨hinit, hnew⟩ := Entries.distinct_concat hd
    have hlast := hown last (List.mem_append_right _ (List.mem_singleton_self last))
    have hself := follow_addAll_of_not_mem canonical typeKey start showItem hnew
    obtain ⟨hkept, hends⟩ := ih hinit fun e he => hown e (List.mem_append_left _ he)
    rw [addAll_concat]
    generalize addAll canonical typeKey ⟨start, showItem, []⟩ init = f at *
    -- Before the last palette each reference is known already, or is the one to this palette.
    have hbefore : ∀ name ∈ Entries.names (init ++ [last]),
        follow f.renamed name = last.1 ∨ Knows known f.shared (follow f.renamed name) := by
      intro name hm
      rcases Entries.mem_names_concat.1 hm with hm | hm
      · exact .inr (hends name hm)
      · rw [hm]
        exact .inl hself
    rcases add_cases canonical typeKey f last.1 last.2 with ⟨_, ha⟩ | ⟨_, ha⟩ <;> rw [ha]
    · exact ⟨fun name h => knows_stored hlast (.inr (hkept name h)),
        fun name hm => knows_stored hlast (hbefore name hm)⟩
    · refine ⟨fun name h => knows_stored hlast (.inr (hkept name h)), fun name hm => ?_⟩
      dsimp only
      rw [follow_append, follow_singleton]
      split
      · exact knows_stored hlast (.inl rfl)
      · next hne => exact knows_stored hlast (.inr ((hbefore name hm).resolve_left hne))

end Palette

/-- What a layout refers to is there: each palette under its name, and the columns of the fields, also
of those in the palettes. Items without a name may be left in a palette. -/
structure Layout.Closed (l : Layout) (columns : List String) : Prop where
  palette {item : Item} : item ∈ ShowItem.parse l.showItem → item.kind = .special .palette →
    ∃ name, item.reference? = some name ∧ name ∈ l.palettes.names
  field {item : Item} {id : String} : item ∈ ShowItem.parse l.showItem → item.kind = .field id →
    id ∈ columns
  inside {item inner : Item} {name showItem id : String} : item ∈ ShowItem.parse l.showItem →
    item.reference? = some name → l.palettes.get? name = some showItem →
    inner ∈ ShowItem.parse showItem → inner.kind = .field id → id ≠ "" → id ∈ columns

namespace FormTree

variable {t : FormTree} {label : String} {loose : String → Prop}

theorem exists_reference (hp : t.Holds label Node.Plain) {item : Item} (hi : item ∈ t.items)
    (hk : item.kind = .special .palette) : ∃ name, item.reference? = some name := by
  cases writes_of_mem hi with
  | tab hn =>
    rw [Layout.kind_tabItem] at hk
    cases hk
  | field hn hc =>
    rw [Layout.kind_fieldItem ((hp.nodes hn).field hc).2.2] at hk
    cases hk
  | @palette _ name n _ _ => exact ⟨name, Layout.reference?_paletteItem n name⟩

theorem field?_of_mem_items (hl : t.Linked loose) (hp : t.Holds label Node.Plain) {item : Item}
    (hi : item ∈ t.items) {id : String} (hk : item.kind = .field id) : t.field? id ≠ none := by
  cases writes_of_mem hi with
  | tab hn =>
    rw [Layout.kind_tabItem] at hk
    cases hk
  | @field x n config hn hc =>
    rw [Layout.kind_fieldItem ((hp.nodes hn).field hc).2.2] at hk
    rw [← ItemKind.field.inj hk, hl.keyed hn,
      Layout.field?_of_node hn (by rw [Node.kind, hc]; rfl)]
    exact Option.some_ne_none n
  | palette hn hc =>
    rw [Layout.kind_paletteItem] at hk
    cases hk

end FormTree

namespace Table

variable {table start : Table} {value : Value} {key : String} {ty : TableType}

/-- The references of the base and of some types end at palettes with known fields. -/
def Resolves (table : Table) (keys : List String) (c : Compiled) : Prop :=
  ∀ key ∈ table.base.key :: keys, ∀ ty, table.type? key = some ty →
    ∀ name ∈ ty.tree.layout.palettes.names, Knows table.compileTypes.columns.names c.palettes
      (follow (table.renamings key) name)

namespace Opened

theorem columns_onType? {f : TableType → TableType × α}
    (h : table.onType? key f = some (table', answer)) : table'.columns = table.columns := by
  obtain ⟨ty, _, he⟩ := Option.map_eq_some_iff.1 h
  cases he
  rfl

theorem distinct_columns (h : table.Opened) : table.columns.Distinct := by
  induction h with
  | read hv _ h _ => exact (parsed_of_read hv h).grounded.distinct
  | editBase _ _ ih => exact ih
  | editType _ _ ht ih => exact columns_onType? ht ▸ ih
  | field _ _ ht ih => exact columns_onType? ht ▸ ih
  | resolve _ ht ih => exact columns_onType? ht ▸ ih
  | invalidate id _ ih => exact ih
  | removeField definitions id _ ih => exact ih.erase id

theorem grounded (h : table.Opened) : table.Grounded :=
  { h.sound with
    joined := h.sound.base.joined
    distinct := h.distinct_columns }

/-- Every field that a type shows has a column, also in the base type. -/
theorem mem_columns (h : table.Opened) (hty : table.type? key = some ty) {id : String}
    (hf : ty.tree.field? id ≠ none) : id ∈ table.compileTypes.columns.names := by
  obtain ⟨config, hconfig⟩ := FormTree.exists_config (Option.isSome_iff_ne_none.2 hf)
  by_cases hk : key = table.base.key
  · rw [hk, type?_base, Option.some_inj] at hty
    obtain ⟨loose, hjoined⟩ := h.sound.base.joined
    have hbase : table.baseColumns.get? id = some config := by
      rw [get?_baseColumns hjoined, baseConfig?, FormLayout.baseConfig?, hty, hconfig]
    exact Entries.mem_names_iff.2
      ⟨config, (h.grounded.stage table.typeOrder).within id config hbase⟩
  · have ht := (type?_of_ne hk).symm.trans hty
    obtain ⟨loose, hjoined⟩ := (h.sound.types ht).joined
    exact Entries.mem_names_iff.2 (h.grounded.has_compiled ht hjoined hconfig)

theorem names_palettes (h : table.Opened) (hty : table.type? key = some ty) :
    ∀ e ∈ ty.tree.layout.palettes, ShowItem.Names table.compileTypes.columns.names e.2 := by
  intro e he item hi id hk _
  obtain ⟨_, ⟨loose, hl⟩, hp⟩ := h.sound.mem_typeOrder hty
  rw [(hl.mem_layout_palettes hp e he).2, hp.parse_inside] at hi
  refine h.mem_columns hty (Layout.mem_fieldIds_inside hl.toLinked hp
    (List.mem_flatMap.2 ⟨item, hi, ?_⟩))
  rw [Item.fieldIds, hk]
  exact List.mem_singleton_self id

theorem resolves_start (h : table.Opened) : table.Resolves [] (table.compiled []) := by
  intro key hm ty hty name hname
  obtain ⟨layout, hget⟩ := Entries.mem_names_iff.1 hname
  have he := Entries.mem_of_get? hget
  rw [List.mem_singleton.1 hm] at hty ⊢
  refine ⟨layout, ?_, h.names_palettes hty (name, layout) he⟩
  rw [type?_base, Option.some_inj] at hty
  rw [renamings_base]
  exact get?_palettes_start (e := (name, layout)) (hty ▸ he)

theorem resolves_step (h : table.Opened) {keys : List String}
    (hbefore : table.before key = table.compiled keys)
    (hr : table.Resolves keys (table.compiled keys)) :
    table.Resolves (keys ++ [key]) (table.compileType (table.compiled keys) key) := by
  intro k hm u hu name hname
  cases ht : table.types.get? key with
  | none =>
    obtain ⟨types, he⟩ := compileType_skip (table.compiled keys) ht
    rw [he]
    refine hr k ?_ u hu name hname
    by_cases hb : k = table.base.key
    · exact List.mem_cons.2 (.inl hb)
    · have hx : k ≠ key := by
        rintro rfl
        cases ((type?_of_ne hb).trans ht).symm.trans hu
      simpa [hx] using hm
  | some ty =>
    have hk := h.sound.ne_base ht
    have hty := (type?_of_ne hk).trans ht
    rw [compileType_derived _ hk ht]
    obtain ⟨hkept, hends⟩ := knows_addAll table.options.canonicalPalettes key
      (table.compiled keys).palettes ty.tree.layout.showItem
      (Entries.distinct_ofList _ : ty.tree.layout.palettes.Distinct) (h.names_palettes hty)
    by_cases hx : k = key
    · rw [hx] at hu ⊢
      rw [hty, Option.some_inj] at hu
      rw [renamings_derived hk ht, hbefore]
      exact hends name (hu ▸ hname)
    · exact hkept _ (hr k (by simpa [hx] using hm) u hu name hname)

theorem resolves (h : table.Opened) : table.Resolves table.typeOrder table.compileTypes :=
  compiled_induction h.sound.order h.resolves_start fun _ _ _ _ hbefore hr =>
    h.resolves_step hbefore hr

theorem closed_layout (h : table.Opened) (hty : table.type? key = some ty) :
    (Layout.ofDocument table.compile key).Closed (partOf table.compile "columns").names := by
  obtain ⟨hmem, ⟨loose, hl⟩, hp⟩ := h.sound.mem_typeOrder hty
  have hparse := h.sound.parse_ofDocument hty
  have hpalettes : (Layout.ofDocument table.compile key).palettes = table.compileTypes.palettes :=
    palettesOf_compile table
  -- Each reference is one of the tree, with the name that its palette was given.
  have hknows {item : Item} {name : String}
      (hi : item ∈ ty.tree.items.map (Item.redirect (table.renamings key)))
      (hr : item.reference? = some name) :
      Knows table.compileTypes.columns.names table.compileTypes.palettes name := by
    obtain ⟨own, hown, rfl⟩ := List.mem_map.1 hi
    rw [Item.reference?_redirect] at hr
    obtain ⟨old, hold, rfl⟩ := Option.map_eq_some_iff.1 hr
    exact h.resolves key (List.mem_cons_of_mem _ hmem) ty hty old
      (hl.mem_names_palettes hp hown hold)
  rw [names_compile_columns]
  constructor
  case palette =>
    intro item hi hk
    rw [hparse] at hi
    have hi' := hi
    obtain ⟨own, hown, rfl⟩ := List.mem_map.1 hi
    rw [Item.kind_redirect] at hk
    obtain ⟨name, hname⟩ := FormTree.exists_reference hp hown hk
    have hr : (own.redirect (table.renamings key)).reference? =
        some (follow (table.renamings key) name) := by
      rw [Item.reference?_redirect, hname, Option.map_some]
    obtain ⟨showItem, hget, _⟩ := hknows hi' hr
    rw [hpalettes]
    exact ⟨_, hr, Entries.mem_names_iff.2 ⟨showItem, hget⟩⟩
  case field =>
    intro item id hi hk
    rw [hparse] at hi
    obtain ⟨own, hown, rfl⟩ := List.mem_map.1 hi
    rw [Item.kind_redirect] at hk
    exact h.mem_columns hty (FormTree.field?_of_mem_items hl.toLinked hp hown hk)
  case inside =>
    intro item inner name showItem id hi hr hget hinner hk hne
    rw [hparse] at hi
    obtain ⟨stored, hstored, hnames⟩ := hknows hi hr
    rw [hpalettes, hstored, Option.some_inj] at hget
    exact hnames inner (hget ▸ hinner) id hk hne

end Opened

/-- A table that was read of a document and then edited compiles to a document where nothing is
missing. The columns that the base knows are those of the base, and the types are the ones of the
document before. -/
structure Closed (table : Table) (value : Value) : Prop where
  layout {key : String} : key ∈ (partOf table.compile "types").names →
    (Layout.ofDocument table.compile key).Closed (partOf table.compile "columns").names
  overrides {key id : String} : key ∈ (partOf table.compile "types").names →
    key ≠ table.base.key → id ∈ (overridesIn table.compile key).names →
    id ∈ (partOf table.compile "columns").names
  base {id : String} {config : Fields} : table.baseConfig? id = some config →
    (partOf table.compile "columns").get? id = some (.object config)
  types : (partOf table.compile "types").names =
    if (partOf value "types").isEmpty then [table.base.key] else (partOf value "types").names

theorem Opened.closed (h : table.Opened) (hs : table.Stems value) : table.Closed value := by
  have hnames : (partOf table.compile "types").names = table.typeOrder := by
    rw [partOf_compile_types, hs.names_types]
  constructor
  case layout =>
    intro key hm
    obtain ⟨ty, hty⟩ := h.sound.typed (hnames ▸ hm)
    exact h.closed_layout hty
  case overrides =>
    intro key id hm hk hid
    obtain ⟨ty, hty⟩ := h.sound.typed (hnames ▸ hm)
    have ht := (type?_of_ne hk).symm.trans hty
    have hstage := h.grounded.stage_before key
    rw [hs.overridesIn_compile ht, Entries.mem_names_iff] at hid
    obtain ⟨v, hv⟩ := hid
    rw [Entries.get?_map, (hstage.reduces h.grounded ty).get?_overrides] at hv
    obtain ⟨change, hchange, _⟩ := Option.map_eq_some_iff.1 hv
    obtain ⟨known, hknown, _⟩ := Option.bind_eq_some_iff.1 hchange
    rw [names_compile_columns]
    exact Entries.mem_names_iff.2 ⟨known, h.grounded.within_compiled ht id known
      (hstage.within_reduction h.grounded ty id known hknown)⟩
  case base =>
    intro id config hconfig
    obtain ⟨loose, hjoined⟩ := h.sound.base.joined
    rw [← get?_baseColumns hjoined] at hconfig
    have hcompiled : table.compileTypes.columns.get? id = some config :=
      (h.grounded.stage table.typeOrder).within id config hconfig
    rw [get?_compile_columns, hcompiled, Option.map_some]
  case types => rw [hnames, hs.order_eq]

/-- Whatever is done to a table that was loaded, with plain texts, nothing is missing in what it
compiles to. -/
theorem closed_runAll {name : String} {options : Options} (hv : value.Proper)
    (hl : Text.Plain options.defaultTabLabel) (hread : Table.read name value options = .ok start)
    (hkeys : ∀ key ∈ start.typeOrder, Text.Plain key) {edits : List TableEdit}
    (he : ∀ e ∈ edits, e.Plain) : (start.runAll edits).Closed value := by
  have hopened : (start.runAll edits).Opened :=
    runAll_induction (.read hv hl hread hkeys) fun table e hm h => h.run (he e hm)
  exact hopened.closed ((stems_of_read hv hread).kept (.runAll start edits))

/-- A type moves a field into a palette, which gets another name, and shows a new field. -/
theorem closed_of_moved_field : ∃ start : Table,
    Table.read "pages" sharedPalette ⟨"general", none, true⟩ = .ok start ∧
    (∀ key ∈ start.typeOrder, Text.Plain key) ∧
    (start.runAll [.type "1" (.move "b" "bottom:palette:p"),
      .field "1" "c" [.label "C"]]).allRenamings = [("p", "1-p")] ∧
    (start.runAll [.type "1" (.move "b" "bottom:palette:p"),
      .field "1" "c" [.label "C"]]).Closed sharedPalette := by
  obtain ⟨start, hread, h⟩ := exists_of_check
    (x := Table.read "pages" sharedPalette ⟨"general", none, true⟩)
    (p := fun start : Table => decide (∀ key ∈ start.typeOrder, Text.Plain key) &&
      decide ((start.runAll [.type "1" (.move "b" "bottom:palette:p"),
        .field "1" "c" [.label "C"]]).allRenamings = [("p", "1-p")])) (by decide +kernel)
  rw [Bool.and_eq_true, decide_eq_true_iff, decide_eq_true_iff] at h
  refine ⟨start, hread, h.1, h.2, closed_runAll ?_ ?_ hread h.1 ?_⟩
  · simp [sharedPalette, proper_object_iff, Entries.Distinct, Entries.names, Proper.string]
  · decide +kernel
  · intro e he
    simp only [List.mem_cons, List.not_mem_nil, or_false] at he
    rcases he with rfl | rfl
    · trivial
    · refine ⟨by decide +kernel, fun e he => ?_⟩
      rw [List.mem_singleton.1 he]
      exact (by decide +kernel : Text.Plain "C")

/-- A document without types. -/
def noTypes : Value := .object [("columns", .object []), ("types", .object [])]

/-- A document with a palette whose one item is blank. -/
def blankItem : Value := .object [
  ("columns", .object []),
  ("palettes", .object [("p", .object [("showitem", .string ";;")])]),
  ("types", .object [
    ("0", .object [("showitem", .string "")]),
    ("1", .object [("showitem", .string "--palette--;;p")])])]

/-- The base type is compiled also when the document has no types, and a stored palette stands for
one without items when its items are blank. -/
theorem open_of_noTypes_of_blankItem :
    (∃ table : Table, Table.read "pages" noTypes ⟨"general", none, true⟩ = .ok table ∧
      table.Opened ∧ (partOf table.compile "types").names ≠ (partOf noTypes "types").names) ∧
    ∃ table : Table, Table.read "pages" blankItem ⟨"general", none, true⟩ = .ok table ∧
      table.Opened ∧
      ["--palette--", "", "p"] ∈ ShowItem.parse (Layout.ofDocument table.compile "1").showItem ∧
      (Layout.ofDocument table.compile "1").palettes.get? "p" = some ";;" ∧
      ShowItem.parse ";;" = [["", "", ""]] ∧ Item.kind ["", "", ""] = .field "" ∧
      "" ∉ (partOf table.compile "columns").names := by
  constructor
  · obtain ⟨table, hread, h⟩ := exists_of_check
      (x := Table.read "pages" noTypes ⟨"general", none, true⟩)
      (p := fun table : Table => decide (∀ key ∈ table.typeOrder, Text.Plain key) &&
        decide ((partOf table.compile "types").names ≠ (partOf noTypes "types").names))
      (by decide +kernel)
    rw [Bool.and_eq_true, decide_eq_true_iff, decide_eq_true_iff] at h
    refine ⟨table, hread, .read ?_ ?_ hread h.1, h.2⟩
    · simp [noTypes, proper_object_iff, Entries.Distinct, Entries.names]
    · decide +kernel
  · obtain ⟨table, hread, h⟩ := exists_of_check
      (x := Table.read "pages" blankItem ⟨"general", none, true⟩)
      (p := fun table : Table => decide (∀ key ∈ table.typeOrder, Text.Plain key) &&
        decide (["--palette--", "", "p"] ∈
            ShowItem.parse (Layout.ofDocument table.compile "1").showItem ∧
          (Layout.ofDocument table.compile "1").palettes.get? "p" = some ";;" ∧
          ShowItem.parse ";;" = [["", "", ""]] ∧ Item.kind ["", "", ""] = .field "" ∧
          "" ∉ (partOf table.compile "columns").names)) (by decide +kernel)
    rw [Bool.and_eq_true, decide_eq_true_iff, decide_eq_true_iff] at h
    refine ⟨table, hread, .read ?_ ?_ hread h.1, h.2⟩
    · simp [blankItem, proper_object_iff, Entries.Distinct, Entries.names, Proper.string]
    · decide +kernel

end Table

end FormLayout
