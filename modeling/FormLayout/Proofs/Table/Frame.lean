import FormLayout.Proofs.Table.Expansion
import FormLayout.Proofs.Table.Runs
/-!
What a compiled document has from the document that the table was read of: everything but the parts
that are compiled.
-/

namespace FormLayout
set_option autoImplicit true
open Palette

namespace Table

variable {start table : Table} {value : Value} {key name : String}

/-- A table that was read of a document, and then edited. -/
structure Stems (table : Table) (value : Value) : Prop extends table.Ordered where
  document : value = .object table.document
  palette_documents : table.paletteDocuments = partOf value "palettes"
  palettes : table.palettes = palettesOf table.paletteDocuments
  order_eq : table.typeOrder =
    if (partOf value "types").isEmpty then [table.base.key] else (partOf value "types").names
  document_eq {key : String} {ty : TableType} : table.type? key = some ty →
    ty.document = documentOf (partOf value "types") key

theorem stems_of_read {options : Options} (hv : value.Proper)
    (h : Table.read name value options = .ok table) : table.Stems value := by
  have hordered := ordered_of_read hv h
  obtain ⟨source, hs, _, types, ht, rfl⟩ := read_ok_iff.1 h
  refine ⟨hordered, hs.document, hs.paletteDocuments_eq, rfl, ?_, fun {key ty} hty => ?_⟩
  · rw [← hs.documents_eq]
    rfl
  · rw [← hs.documents_eq]
    rw [type?] at hty
    split at hty
    · next hk =>
      rw [← Option.some.inj hty, hk]
      rfl
    · obtain ⟨_, _, hr⟩ := Source.readType_of_readTypes ht hty
      obtain ⟨columns, _, _, he⟩ := readType_ok_iff.1 hr
      rw [show ty = _ from he]
      rfl

theorem Stems.kept (h : start.Stems value) (hk : Kept start table) : table.Stems value := by
  refine ⟨hk.ordered h.toOrdered, ?_, ?_, ?_, ?_, fun {key ty} hty => ?_⟩
  · rw [hk.document]
    exact h.document
  · rw [hk.palette_documents]
    exact h.palette_documents
  · rw [hk.palettes, hk.palette_documents]
    exact h.palettes
  · rw [hk.order, hk.base_key]
    exact h.order_eq
  · rw [type?] at hty
    split at hty
    · next hb =>
      rw [hb, ← Option.some.inj hty, hk.base_document, hk.base_key]
      exact h.document_eq (type?_base start)
    · next hb =>
      have hdocument := hk.type_document key
      rw [hty, Option.map_some] at hdocument
      obtain ⟨former, hformer, he⟩ := Option.map_eq_some_iff.1 hdocument.symm
      rw [← he]
      exact h.document_eq ((type?_of_ne (hk.base_key ▸ hb)).trans hformer)

/-- The new names that compiling makes for palettes, each with the name before. -/
def allRenamings (table : Table) : List (String × String) :=
  table.typeOrder.flatMap table.renamings

/-- The compiled document has what it does not own from another document. A new palette has the
settings of the one that was renamed to it. -/
structure PassesOn (table : Table) (value : Value) : Prop where
  top {part : String} : part ∉ ["columns", "palettes", "types"] →
    (table.compile.fields?.getD []).get? part = (value.fields?.getD []).get? part
  type {key name : String} : name ∉ ["showitem", "columnsOverrides"] →
    (documentOf (partOf table.compile "types") key).get? name =
      (documentOf (partOf value "types") key).get? name
  palette {id name : String} : (∀ r ∈ table.allRenamings, r.2 ≠ id) → name ≠ "showitem" →
    (documentOf (partOf table.compile "palettes") id).get? name =
      (documentOf (partOf value "palettes") id).get? name
  renamed {former more : List (String × String)} {old new name : String} :
    table.allRenamings = former ++ (old, new) :: more → (∀ r ∈ more, r.2 ≠ new) →
    new ∉ (partOf value "palettes").names → name ≠ "showitem" →
    (documentOf (partOf table.compile "palettes") new).get? name =
      (documentOf (partOf value "palettes") old).get? name

theorem formerNames_compileTypes (h : table.Ordered) :
    table.compileTypes.formerNames = Entries.ofList (table.allRenamings.map Prod.swap) := by
  apply compiled_induction h.order (P := fun keys c =>
    c.formerNames = Entries.ofList ((keys.flatMap table.renamings).map Prod.swap))
  · rfl
  · intro keys key _ _ hbefore ih
    rw [List.flatMap_append, List.flatMap_singleton, List.map_append]
    cases ht : table.types.get? key with
    | none =>
      obtain ⟨types, he⟩ := compileType_skip (table.compiled keys) ht
      rw [he, renamings_skip ht, List.map_nil, List.append_nil]
      exact ih
    | some ty =>
      have hk := h.ne_base ht
      rw [compileType_derived _ hk ht, renamings_derived hk ht, hbefore]
      dsimp only
      rw [ih, Entries.ofList, Entries.ofList, Entries.extend, Entries.extend, List.foldl_append]
      generalize List.foldl _ [] _ = former
      rw [List.foldl_map]
      rfl

/-- Compiling takes no palette away, and stores every new name. -/
theorem mem_names_compileTypes (h : table.Ordered) :
    (∀ name ∈ table.palettes.names, name ∈ table.compileTypes.palettes.names) ∧
      ∀ r ∈ table.allRenamings, r.2 ∈ table.compileTypes.palettes.names := by
  apply compiled_induction h.order (P := fun keys c =>
    (∀ name ∈ table.palettes.names, name ∈ c.palettes.names) ∧
      ∀ r ∈ keys.flatMap table.renamings, r.2 ∈ c.palettes.names)
  · exact ⟨fun name hm => Entries.mem_names_extend _ hm, fun r hr => absurd hr List.not_mem_nil⟩
  · intro keys key _ _ hbefore ⟨hnames, hnew⟩
    rw [List.flatMap_append, List.flatMap_singleton]
    cases ht : table.types.get? key with
    | none =>
      obtain ⟨types, he⟩ := compileType_skip (table.compiled keys) ht
      rw [he, renamings_skip ht, List.append_nil]
      exact ⟨hnames, hnew⟩
    | some ty =>
      have hk := h.ne_base ht
      rw [compileType_derived _ hk ht, renamings_derived hk ht, hbefore]
      obtain ⟨hkept, hstored⟩ := mem_names_addAll ty.tree.layout.palettes (f :=
        ⟨(table.compiled keys).palettes, ty.tree.layout.showItem, []⟩)
      refine ⟨fun name hm => hkept name (hnames name hm), fun r hr => ?_⟩
      rcases List.mem_append.1 hr with hr | hr
      · exact hkept r.2 (hnew r hr)
      · exact hstored (fun r hr => absurd hr List.not_mem_nil) r hr

theorem documentOf_compiledPalettes {id : String} (hid : id ∈ table.compileTypes.palettes.names)
    (hn : name ≠ "showitem") : (documentOf table.compiledPalettes id).get? name =
      (documentOf table.paletteDocuments
        ((table.compileTypes.formerNames.get? id).getD id)).get? name := by
  obtain ⟨showItem, hs⟩ := Entries.mem_names_iff.1 hid
  rw [documentOf, compiledPalettes, Entries.get?_mapWith, hs]
  exact Entries.get?_put_of_ne _ _ hn

namespace Stems

theorem passes_on_types (h : table.Stems value) (hn : name ∉ ["showitem", "columnsOverrides"]) :
    (documentOf (partOf table.compile "types") key).get? name =
      (documentOf (partOf value "types") key).get? name := by
  rw [partOf_compile_types]
  by_cases hmem : key ∈ table.typeOrder
  · obtain ⟨ty, hty⟩ := h.typed hmem
    rw [← h.document_eq hty]
    by_cases hk : key = table.base.key
    · rw [hk, type?_base, Option.some_inj] at hty
      rw [hk, h.documentOf_base, hty]
      exact get?_typeDocument_of_ne _ _ _ hn
    · rw [h.documentOf_types hk ((type?_of_ne hk).symm.trans hty)]
      exact get?_typeDocument_of_ne _ _ _ hn
  · have hnone : (partOf value "types").get? key = none := by
      apply Entries.get?_eq_none_iff.2
      intro hm
      have horder := h.order_eq
      split at horder
      · next he =>
        rw [List.isEmpty_iff.1 he] at hm
        cases hm
      · exact hmem (horder ▸ hm)
    rw [documentOf, get?_types_compileTypes h.order, if_neg hmem, documentOf, hnone]

theorem passes_on_palette (h : table.Stems value) {id : String}
    (hid : ∀ r ∈ table.allRenamings, r.2 ≠ id) (hn : name ≠ "showitem") :
    (documentOf (partOf table.compile "palettes") id).get? name =
      (documentOf (partOf value "palettes") id).get? name := by
  rw [partOf_compile_palettes, ← h.palette_documents]
  by_cases hmem : id ∈ table.compileTypes.palettes.names
  · have hformer : table.compileTypes.formerNames.get? id = none := by
      rw [formerNames_compileTypes h.toOrdered]
      apply Entries.get?_eq_none_iff.2
      intro hm
      obtain ⟨v, hv⟩ := Entries.mem_names_iff.1 hm
      obtain ⟨r, hr, he⟩ := List.mem_map.1 (Entries.mem_of_mem_ofList (Entries.mem_of_get? hv))
      exact hid r hr (congrArg Prod.fst he)
    rw [documentOf_compiledPalettes hmem hn, hformer]
    rfl
  · have hnone : table.paletteDocuments.get? id = none := by
      apply Entries.get?_eq_none_iff.2
      intro hm
      apply hmem
      apply (mem_names_compileTypes h.toOrdered).1
      rw [h.palettes, palettesOf, Entries.names, List.map_map]
      exact hm
    have hcompiled : table.compiledPalettes.get? id = none := by
      rw [Entries.get?_eq_none_iff, names_compiledPalettes]
      exact hmem
    rw [documentOf, hcompiled, documentOf, hnone]

theorem passes_on_renamed (h : table.Stems value) {former more : List (String × String)}
    {old new : String} (hr : table.allRenamings = former ++ (old, new) :: more)
    (hlast : ∀ r ∈ more, r.2 ≠ new) (hn : name ≠ "showitem") :
    (documentOf (partOf table.compile "palettes") new).get? name =
      (documentOf (partOf value "palettes") old).get? name := by
  have hmem : new ∈ table.compileTypes.palettes.names := by
    apply (mem_names_compileTypes h.toOrdered).2 (old, new)
    rw [hr]
    exact List.mem_append_right _ List.mem_cons_self
  have hformer : table.compileTypes.formerNames.get? new = some old := by
    rw [formerNames_compileTypes h.toOrdered, hr, List.map_append, List.map_cons]
    apply Entries.get?_extend_of_last
    intro hm
    rw [Entries.names, List.map_map, List.mem_map] at hm
    obtain ⟨r, hr, he⟩ := hm
    exact hlast r hr he
  rw [partOf_compile_palettes, documentOf_compiledPalettes hmem hn, hformer,
    h.palette_documents]
  rfl

end Stems

/-- Whatever is done to the trees, a table passes on what it does not own. -/
theorem passesOn_runAll {options : Options} (hv : value.Proper)
    (hread : Table.read name value options = .ok start) (edits : List TableEdit) :
    (start.runAll edits).PassesOn value := by
  have h : (start.runAll edits).Stems value := (stems_of_read hv hread).kept (.runAll start edits)
  refine ⟨fun {part} hp => ?_, fun hn => h.passes_on_types hn,
    fun hid hn => h.passes_on_palette hid hn, fun hr hlast _ hn => h.passes_on_renamed hr hlast hn⟩
  rw [compile_eq, h.document]
  exact get?_withParts_of_ne _ _ _ _ hp

/-- A document where two types show one palette. -/
def sharedPalette : Value := .object [
  ("ctrl", .object [("label", .string "title")]),
  ("columns", .object [("a", .object []), ("b", .object [])]),
  ("palettes", .object [("p", .object [("showitem", .string "a"), ("label", .string "P")])]),
  ("types", .object [
    ("0", .object [("showitem", .string "--palette--;;p, b")]),
    ("1", .object [("showitem", .string "--palette--;;p, b"), ("icon", .string "i")])])]

/-- A type moves a field into a palette, which gets another name and keeps its settings. -/
theorem passesOn_of_moved_field : ∃ start : Table,
    Table.read "pages" sharedPalette ⟨"general", none, true⟩ = .ok start ∧
    (start.runAll [.type "1" (.move "b" "bottom:palette:p")]).allRenamings = [("p", "1-p")] ∧
    (start.runAll [.type "1" (.move "b" "bottom:palette:p")]).PassesOn sharedPalette := by
  obtain ⟨start, hread, h⟩ := exists_of_check
    (x := Table.read "pages" sharedPalette ⟨"general", none, true⟩)
    (p := fun start : Table => decide ((start.runAll
      [.type "1" (.move "b" "bottom:palette:p")]).allRenamings = [("p", "1-p")])) (by decide +kernel)
  refine ⟨start, hread, of_decide_eq_true h, passesOn_runAll ?_ hread _⟩
  simp [sharedPalette, Value.proper_object_iff, Entries.Distinct, Entries.names,
    Value.Proper.string]

/-- A document where the name that is made for a palette is the one of another palette. -/
def takenPalette : Value := .object [
  ("columns", .object [("a", .object []), ("b", .object []), ("c", .object [])]),
  ("palettes", .object [
    ("p", .object [("showitem", .string "a,b"), ("label", .string "P")]),
    ("1-p", .object [("showitem", .string "c"), ("label", .string "X")])]),
  ("types", .object [
    ("0", .object [("showitem", .string "--palette--;;p,a")]),
    ("1", .object [("showitem", .string "--palette--;;p")])])]

/-- A palette that another one is renamed to gets the settings of that one. -/
theorem settings_of_takenPalette : ∃ table : Table,
    Table.read "pages" takenPalette ⟨"general", none, true⟩ = .ok table ∧
    ((documentOf (partOf takenPalette "palettes") "1-p").get? "label").bind Value.string? =
      some "X" ∧
    ((documentOf (partOf table.compile "palettes") "1-p").get? "label").bind Value.string? =
      some "P" := by
  obtain ⟨table, hread, h⟩ := exists_of_check
    (x := Table.read "pages" takenPalette ⟨"general", none, true⟩)
    (p := fun table : Table => decide (((documentOf (partOf table.compile "palettes") "1-p").get?
      "label").bind Value.string? = some "P")) (by decide +kernel)
  exact ⟨table, hread, by decide +kernel, of_decide_eq_true h⟩

end Table

end FormLayout
