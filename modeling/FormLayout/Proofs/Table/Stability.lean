import FormLayout.Proofs.Table.Reloading
import FormLayout.Proofs.Table.Tidy
/-!
Compiling what was loaded from a compiled document gives this document again.
-/

namespace FormLayout
set_option autoImplicit true
open Value Palette

namespace Table

variable {table again : Table} {key : String} {ty : TableType}

theorem typeDocument_base (document : Fields) (showItem : String) :
    typeDocument ((typeDocument document showItem none).fields?.getD []) showItem none =
      typeDocument document showItem none :=
  congrArg Value.object (Entries.put_eq_self (get?_showItem_typeDocument document showItem none))

/-- Equal overrides make equal documents. -/
theorem typeDocument_again {document : Fields} {overrides written : Columns} (showItem : String)
    (hd : Proper (.object document)) (ho : Proper (.ofFields written))
    (he : equal (.ofFields overrides) (.ofFields written) = true) :
    equal (typeDocument ((typeDocument document showItem (some written)).fields?.getD []) showItem
      (some overrides)) (typeDocument document showItem (some written)) = true := by
  have hproper : (typeDocument document showItem (some written)).Proper :=
    proper_typeDocument hd showItem fun _ hw => Option.some.inj hw ▸ ho
  have hshow := Entries.put_eq_self (get?_showItem_typeDocument document showItem (some written))
  have hlength : overrides.length = written.length := by
    rw [Value.ofFields, Value.ofFields, equal, Bool.and_eq_true, beq_iff_eq, List.length_map,
      List.length_map] at he
    exact he.1
  cases written with
  | nil =>
    have hsame : typeDocument ((typeDocument document showItem (some [])).fields?.getD []) showItem
        (some []) = typeDocument document showItem (some []) := by
      rw [typeDocument, hshow, Entries.erase_eq_self (get?_columnsOverrides _ _ _)]
      rfl
    rw [List.length_eq_zero_iff.1 hlength, hsame]
    exact equal_refl hproper
  | cons c cs =>
    obtain ⟨d, ds, rfl⟩ := List.exists_cons_of_length_eq_add_one hlength
    have hget : ((typeDocument document showItem (some (c :: cs))).fields?.getD []).get?
        "columnsOverrides" = some (.ofFields (c :: cs)) := get?_columnsOverrides _ _ _
    have heq := equal_put hproper hget he
    rw [typeDocument, hshow]
    exact heq

/-- The columns and palettes of a table, as long as compiling has added nothing to them. -/
structure Steady (table : Table) (c : Compiled) : Prop where
  columns : c.columns = table.columns
  palettes : c.palettes = table.palettes
  formerNames : c.formerNames = []

variable {c : Compiled}

theorem Steady.stage (hs : table.Steady c) (h : table.Parsed) : table.Stage c := by
  refine ⟨?_, ?_⟩ <;> rw [hs.columns]
  · exact h.grounded.distinct
  · rw [h.baseColumns_eq]
    exact .refl _

namespace Reloads

variable {u : TableType}

theorem exists_type (hr : table.Reloads again) (h : table.Loaded) (hagain : again.Loaded)
    (hk : key ≠ again.base.key) (hu : again.types.get? key = some u) : ∃ ty,
      key ≠ table.base.key ∧ table.types.get? key = some ty ∧ table.Repeats key ty u.tree ∧
        u.columns = (table.reductionOf (table.before key) ty).overrides ∧
        u.document = documentOf table.compileTypes.types key := by
  have hmem := hagain.type_mem hu
  rw [hr.order] at hmem
  rw [hr.base_key] at hk
  obtain ⟨ty, hty⟩ := h.typed hmem
  have ht := (type?_of_ne hk).symm.trans hty
  obtain ⟨v, hv, hfacts⟩ := hr.types hk ht
  cases hu.symm.trans hv
  exact ⟨ty, hk, ht, hfacts⟩

/-- The overrides of a reloaded type are found again, and no columns are added. -/
theorem reductionOf_again (hr : table.Reloads again) (h : table.Loaded) (hagain : again.Loaded)
    (hs : again.Steady c) (hk : key ≠ again.base.key) (hu : again.types.get? key = some u) :
    (again.reductionOf c u).base = again.columns ∧
      equal (.ofFields (again.reductionOf c u).overrides) (.ofFields u.columns) = true := by
  obtain ⟨ty, hne, ht, _, hcolumns, _⟩ := hr.exists_type h hagain hk hu
  have hproper : Proper (.ofFields (table.before key).columns) := h.proper_compiled _
  have hw := h.grounded.within_compiled ht
  have hreduced := (h.grounded.stage_before key).reduces h.grounded ty
  have hreduces := (hs.stage hagain.toParsed).reduces hagain.grounded u
  rw [hs.columns] at hreduces
  have hdistinct : u.columns.Distinct := by
    rw [hcolumns]
    exact hreduced.distinct_overrides
  refine hreduces.again hagain.proper_columns (hagain.type_read hu) hdistinct fun id change ho => ?_
  rw [hcolumns, hreduced.get?_overrides] at ho
  obtain ⟨known, hknown, ho⟩ := Option.bind_eq_some_iff.1 ho
  obtain ⟨config, hconfig, ho⟩ := Option.bind_eq_some_iff.1 ho
  refine ⟨known, config, ?_, ?_, ho⟩
  · rw [hr.columns]
    apply hw id known
    rw [hreduced.get?_base, hknown, Option.some_or]
  · exact (proper_ofFields_iff.1 (h.proper_all ht hproper)).2 id config hconfig

/-- The palettes of a reloaded type are stored with their layouts, so none is renamed. -/
theorem foldOf_again (hr : table.Reloads again) (h : table.Loaded) (hagain : again.Loaded)
    (ha : table.Apart) (hs : again.Steady c) (hk : key ≠ again.base.key)
    (hu : again.types.get? key = some u) :
    again.foldOf c key u = ⟨again.palettes, u.tree.layout.showItem, []⟩ := by
  obtain ⟨ty, hne, ht, hrepeats, _⟩ := hr.exists_type h hagain hk hu
  rw [foldOf, hs.palettes]
  apply addAll_eq_self
  intro e he
  obtain ⟨own, hown, rfl⟩ := hrepeats.palettes he
  rw [hr.options, hr.palettes]
  exact (ha.redirects h ((type?_of_ne hne).trans ht)).stored own hown

theorem steady_start (hr : table.Reloads again) (h : table.Loaded) (hagain : again.Loaded)
    (ha : table.Apart) : again.Steady (again.compiled []) := by
  refine ⟨hagain.baseColumns_eq, Entries.extend_eq_self fun e he => ?_, rfl⟩
  obtain ⟨own, hown, rfl⟩ := hr.base.palettes he
  rw [hr.palettes, renamings_base]
  exact ha.get?_palettes_base h hown

/-- Compiling a reloaded table adds nothing, however far it has come. -/
theorem steady (hr : table.Reloads again) (h : table.Loaded) (hagain : again.Loaded)
    (ha : table.Apart) (keys : List String) : again.Steady (again.compiled keys) := by
  induction keys using List.reverseRecOn with
  | nil => exact hr.steady_start h hagain ha
  | append_singleton init key ih =>
    rw [compiled_concat]
    cases hu : again.types.get? key with
    | none =>
      obtain ⟨types, he⟩ := compileType_skip (again.compiled init) hu
      rw [he]
      exact ⟨ih.columns, ih.palettes, ih.formerNames⟩
    | some u =>
      have hk := hagain.ne_base hu
      rw [compileType_derived _ hk hu, hr.foldOf_again h hagain ha ih hk hu]
      exact ⟨(hr.reductionOf_again h hagain ih hk hu).1, rfl, ih.formerNames⟩

theorem compiledPalettes_again (hr : table.Reloads again) (h : table.Loaded)
    (hagain : again.Loaded) (ha : table.Apart) :
    again.compiledPalettes = table.compiledPalettes := by
  have hs : again.Steady again.compileTypes := hr.steady h hagain ha again.typeOrder
  rw [compiledPalettes, hs.palettes, hs.formerNames, hr.palettes, compiledPalettes]
  refine List.map_congr_left fun e he => Prod.ext rfl ?_
  have hget : again.paletteDocuments.get? e.1 =
      some (table.paletteDocument table.compileTypes.formerNames e.1 e.2) := by
    rw [hr.palette_documents]
    exact Entries.get?_of_mem h.tidy.proper_compiledPalettes.distinct
      (List.mem_map.2 ⟨e, he, rfl⟩)
  change again.paletteDocument [] e.1 e.2 = _
  rw [paletteDocument]
  dsimp only [Entries.get?, Option.getD_none]
  rw [hget]
  exact congrArg Value.object (Entries.put_eq_self (Entries.get?_put_self _ _ _))

theorem compiledType?_base (hr : table.Reloads again) (h : table.Loaded) :
    again.compiledType? table.base.key = table.compiledType? table.base.key := by
  have hitems : again.base.tree.layout.showItem = table.base.tree.layout.showItem := by
    rw [FormTree.layout_showItem, FormTree.layout_showItem, hr.base.items_eq, renamings_base]
    exact congrArg ShowItem.text (List.map_id _)
  rw [compiledType?, if_pos hr.base_key.symm, compiledType?, if_pos rfl, hr.base_document,
    h.documentOf_base, hitems, typeDocument_base]

theorem compiledType?_again (hr : table.Reloads again) (h : table.Loaded) (hagain : again.Loaded)
    (ha : table.Apart) (hk : key ≠ table.base.key) (ht : table.types.get? key = some ty) :
    Option.Rel (fun x y => equal x y = true) (again.compiledType? key)
      (table.compiledType? key) := by
  obtain ⟨u, hu, hrepeats, hcolumns, hdocument⟩ := hr.types hk ht
  have hagainKey : key ≠ again.base.key := hr.base_key ▸ hk
  have hs : again.Steady (again.before key) := hr.steady h hagain ha _
  have hitems : u.tree.layout.showItem =
      (table.foldOf (table.before key) key ty).showItem := by
    have hshow := h.showItem_compiled ((type?_of_ne hk).trans ht)
    rw [h.documentOf_types hk ht, showItemIn_typeDocument] at hshow
    rw [FormTree.layout_showItem, hrepeats.items_eq, hshow]
  have hoverrides := (hr.reductionOf_again h hagain hs hagainKey hu).2
  rw [compiledType?, if_neg hagainKey, hu, Option.map_some,
    hr.foldOf_again h hagain ha hs hagainKey hu, hdocument, h.documentOf_types hk ht, hitems,
    compiledType?, if_neg hk, ht, Option.map_some]
  rw [hcolumns] at hoverrides
  refine .some (typeDocument_again _ (h.proper_type ((type?_of_ne hk).trans ht)) ?_ hoverrides)
  rw [← hcolumns]
  exact hagain.proper_overrides hu

theorem types_again (hr : table.Reloads again) (h : table.Loaded) (hagain : again.Loaded)
    (ha : table.Apart) : equal (.object again.compileTypes.types)
      (.object table.compileTypes.types) = true := by
  apply (equal_object_iff hagain.distinct_types h.distinct_types).2
  intro key
  rw [get?_types_compileTypes hagain.order, get?_types_compileTypes h.order, hr.order]
  split
  · next hmem =>
    by_cases hk : key = table.base.key
    · rw [hk, hr.compiledType?_base h]
      cases hv : table.compiledType? table.base.key with
      | none => exact .none
      | some v => exact .some (equal_refl (h.tidy.proper_compiledType? hv))
    · obtain ⟨ty, hty⟩ := h.typed hmem
      exact hr.compiledType?_again h hagain ha hk ((type?_of_ne hk).symm.trans hty)
  · exact .none

end Reloads

/-- A compiled document is compiled to itself, as long as the names that are made for palettes are
free, and no field has the id of a node that a palette gets with such a name. -/
theorem compile_read_compile {name : String} {value : Value} {options : Options}
    (hv : value.Proper) (hl : Text.Plain options.defaultTabLabel)
    (hread : Table.read name value options = .ok table)
    (hk : ∀ key ∈ table.typeOrder, Text.Plain key) (ha : table.Apart)
    (hf : table.FieldsApart value) :
    ∃ again, Table.read name table.compile options = .ok again ∧
      again.compile.equal table.compile = true := by
  have h : table.Loaded := loaded_of_read hv hl hread hk
  have hoptions : table.options = options := by
    obtain ⟨_, _, _, _, _, rfl⟩ := read_ok_iff.1 hread
    rfl
  obtain ⟨again, hagainRead, hr⟩ := h.reloads ha (hf.loaded hread) name
  have hagain : again.Loaded := by
    refine loaded_of_read h.proper_compile h.label hagainRead ?_
    rw [hr.order]
    exact h.keys
  rw [hoptions] at hagainRead
  refine ⟨again, hagainRead, ?_⟩
  have hs : again.Steady again.compileTypes := hr.steady h hagain ha again.typeOrder
  have hdocument := hr.document
  rw [compile_eq, Value.object.injEq] at hdocument
  rw [compile_eq, compile_eq, hs.columns, hr.columns, hr.compiledPalettes_again h hagain ha,
    hdocument, withParts_withParts]
  refine equal_put ?_ (get?_types_withParts _ _ _ _) (hr.types_again h hagain ha)
  exact compile_eq table ▸ h.proper_compile

/-- A document whose base type takes a field out of a palette that another type shows as well. -/
def splitPalette : Value := .object [
  ("columns", .object [("a", .object [("label", .string "A")]), ("b", .object [])]),
  ("palettes", .object [("p", .object [("showitem", .string "a, b")])]),
  ("types", .object [
    ("0", .object [("showitem", .string "--palette--;;p, a")]),
    ("1", .object [("showitem", .string "--palette--;;p, c"),
      ("columnsOverrides", .object [("a", .object [("label", .string "B")]),
        ("c", .object [("size", .number (.integer 3))])])])])]

theorem compile_read_splitPalette : ∃ table : Table,
    Table.read "pages" splitPalette ⟨"general", none, true⟩ = .ok table ∧
    table.renamings "1" = [("p", "1-p")] ∧
    ∃ again, Table.read "pages" table.compile ⟨"general", none, true⟩ = .ok again ∧
      again.compile.equal table.compile = true := by
  obtain ⟨table, hread, h⟩ := exists_of_check
    (x := Table.read "pages" splitPalette ⟨"general", none, true⟩)
    (p := fun table : Table =>
      decide (table.renamings "1" = [("p", "1-p")] ∧ table.types.names = ["1"] ∧
        table.palettes.names = ["p"] ∧ ∀ key ∈ table.typeOrder, Text.Plain key)) (by decide +kernel)
  obtain ⟨hrenamed, htypes, hpalettes, hkeys⟩ := of_decide_eq_true h
  refine ⟨table, hread, hrenamed, compile_read_compile ?_ ?_ hread hkeys ⟨?_, ?_⟩ ⟨?_, ?_, ?_⟩⟩
  · simp [splitPalette, proper_object_iff, Entries.Distinct, Entries.names, Proper.string,
      Proper.number]
  · decide +kernel
  · intro key name hk hp
    rw [htypes, List.mem_singleton] at hk
    rw [hpalettes, List.mem_singleton] at hp
    rw [hpalettes, hk, hp]
    decide
  · intro key key' name name' hk hk' hp hp' _
    rw [htypes, List.mem_singleton] at hk hk'
    rw [hpalettes, List.mem_singleton] at hp hp'
    exact ⟨hk.trans hk'.symm, hp.trans hp'.symm⟩
  · have hcolumns : ∀ id ∈ (partOf splitPalette "columns").names, ':' ∉ id.toList := by decide
    exact fun {id} => hcolumns id
  · intro key id hk hid
    rw [htypes, List.mem_singleton] at hk
    have hoverrides : ∀ id ∈ (overridesIn splitPalette "1").names, ':' ∉ id.toList := by decide
    exact not_reserves_of_colonFree (hoverrides id (hk ▸ hid))
  · intro key id hid
    obtain ⟨name, _, hid⟩ := List.mem_flatMap.1 hid
    have hpalette : (Layout.ofDocument splitPalette key).palettes = [("p", "a, b")] := rfl
    have hfields : ∀ id ∈ (ShowItem.parse "a, b").flatMap Item.fieldIds, ':' ∉ id.toList := by
      decide +kernel
    rw [hpalette, Layout.itemsOf, Entries.get?] at hid
    split at hid
    · exact not_reserves_of_colonFree (hfields id hid)
    · cases hid

/-- A document where a palette has a field with the id of the node that another palette gets with the
name made for it. -/
def reservedField : Value := .object [
  ("columns", .object [("a", .object []), ("b", .object [])]),
  ("palettes", .object [("p", .object [("showitem", .string "a,b")]),
    ("q", .object [("showitem", .string "palette:1-p")])]),
  ("types", .object [
    ("0", .object [("showitem", .string "--palette--;;p, a")]),
    ("1", .object [("showitem", .string "--palette--;;p,--palette--;;q")])])]

/-- The compiled document has both, so it cannot be loaded, although the names that are made are free
and the columns have no colon in their ids. -/
theorem read_compile_of_reservedField : reservedField.Proper ∧ Text.Plain "general" ∧
    ∃ table : Table, Table.read "pages" reservedField ⟨"general", none, true⟩ = .ok table ∧
    (∀ key ∈ table.typeOrder, Text.Plain key) ∧ table.Apart ∧
    (∀ id ∈ (partOf reservedField "columns").names, ':' ∉ id.toList) ∧
    (∀ key ∈ table.types.names, overridesIn reservedField key = []) ∧
    Table.read "pages" table.compile ⟨"general", none, true⟩ =
      .error (.idCollision "palette:1-p" .palette .field) := by
  obtain ⟨table, hread, h⟩ := exists_of_check
    (x := Table.read "pages" reservedField ⟨"general", none, true⟩)
    (p := fun table : Table =>
      decide (table.types.names = ["1"] ∧ table.palettes.names = ["p", "q"] ∧
        (∀ key ∈ table.typeOrder, Text.Plain key) ∧
        (match Table.read "pages" table.compile ⟨"general", none, true⟩ with
          | .ok _ => none
          | .error e => some e) = some (.idCollision "palette:1-p" .palette .field)))
      (by decide +kernel)
  obtain ⟨htypes, hpalettes, hkeys, hagain⟩ := of_decide_eq_true h
  refine ⟨?_, by decide +kernel, table, hread, hkeys, ⟨?_, ?_⟩, by decide, ?_, ?_⟩
  · simp [reservedField, proper_object_iff, Entries.Distinct, Entries.names, Proper.string]
  · intro key name hk hp
    rw [htypes, List.mem_singleton] at hk
    have hfresh : ∀ name ∈ ["p", "q"], renamedId "1" name ∉ ["p", "q"] := by decide
    rw [hpalettes] at hp ⊢
    exact hk ▸ hfresh name hp
  · intro key key' name name' hk hk' hp hp' he
    rw [htypes, List.mem_singleton] at hk hk'
    have hinjective : ∀ name ∈ ["p", "q"], ∀ name' ∈ ["p", "q"],
        renamedId "1" name = renamedId "1" name' → name = name' := by decide
    rw [hpalettes] at hp hp'
    rw [hk, hk'] at he
    exact ⟨hk.trans hk'.symm, hinjective name hp name' hp' he⟩
  · intro key hk
    rw [htypes, List.mem_singleton] at hk
    rw [hk]
    rfl
  · split at hagain
    · cases hagain
    · next e he => rw [he, Option.some.inj hagain]

end Table

end FormLayout
