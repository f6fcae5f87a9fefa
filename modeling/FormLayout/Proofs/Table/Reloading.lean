import FormLayout.Proofs.Table.Columns
import FormLayout.Proofs.Table.Naming
/-!
Loading a compiled document. Nothing is left out, added or refused: each type comes back with the
trees, columns and palettes that were compiled.
-/

namespace FormLayout
set_option autoImplicit true
open Value Palette

namespace Table

variable {table : Table} {name key : String} {ty : TableType}

theorem columnsOf_typeDocument (name path : String) (document : Fields) (showItem : String)
    (overrides : Columns) :
    columnsOf name path (((typeDocument document showItem (some overrides)).fields?.getD []).get?
      "columnsOverrides") = .ok overrides := by
  rw [get?_columnsOverrides]
  split
  · next hnil => rw [hnil]; rfl
  · exact columnsOf_ofFields name path

/-- A tree shows what the tree of a type shows, with the names that its palettes got. -/
structure Repeats (table : Table) (key : String) (ty : TableType) (t : FormTree) : Prop where
  items_eq : t.items = ty.tree.items.map (Item.redirect (table.renamings key))
  palettes {e : String × String} : e ∈ t.layout.palettes → ∃ own ∈ ty.tree.layout.palettes,
    e = (follow (table.renamings key) own.1, own.2)

/-- The parts of a compiled document. -/
def outcome (table : Table) : Source where
  document := withParts table.document table.compileTypes.columns table.compiledPalettes
    table.compileTypes.types
  columns := table.compileTypes.columns
  paletteDocuments := table.compiledPalettes
  documents := table.compileTypes.types

namespace Loaded

theorem outcome_in (h : table.Loaded) (name : String) :
    table.outcome.In name table.compile := by
  refine ⟨compile_eq table, ?_, ?_, ?_⟩
  · rw [outcome, get?_columns_withParts]
    exact columnsOf_ofFields name "columns"
  · have hobjects : ∀ e ∈ table.compiledPalettes, e.2.fields?.isSome = true := by
      intro e he
      obtain ⟨a, _, rfl⟩ := List.mem_map.1 he
      rfl
    rcases get?_palettes_withParts table.document table.compileTypes.columns table.compiledPalettes
      table.compileTypes.types with ⟨hnil, hnone⟩ | hsome
    · rw [outcome, hnone, hnil]
      rfl
    · rw [outcome, hsome]
      exact objects_object hobjects
  · rw [outcome, get?_types_withParts]
    exact objects_object h.object_of_mem_types

theorem read_again (h : table.Loaded) (ha : table.Apart) (hty : table.type? key = some ty)
    (hl : ty.tree.Linked fun _ => False) (ht : ty.tree.tabs ≠ []) (hnum : Layout.Unnumbered ty.tree)
    (columns : Columns) (parent : Option (String → Option Fields))
    (hknown : ∀ id config, (ty.tree.field? id).bind Node.config? = some config →
      (Layout.Surroundings.config? ⟨table.compileTypes.palettes, parent⟩ columns id).isSome = true)
    (hid : ∀ id config, (ty.tree.field? id).bind Node.config? = some config →
      ¬ table.Reserves id) :
    ∃ tree asked, Layout.read ⟨TableType.showItemIn (documentOf table.compileTypes.types key),
        table.compileTypes.palettes⟩ (.empty table.options.defaultTabLabel) columns parent =
      ⟨tree, columns, asked, none⟩ ∧ table.Repeats key ty tree := by
  obtain ⟨_, _, hp⟩ := h.mem_typeOrder hty
  have hconfig {id n config} (hn : ty.tree.node? id = some n) (hc : n.content = .field config) :
      (ty.tree.field? id).bind Node.config? = some config := by
    rw [Layout.field?_of_node hn (by rw [Node.kind, hc]; rfl), Option.bind_some,
      Node.config?_eq_some_iff.2 hc]
  have hcovers : Layout.Covers ⟨ty.tree.layout.palettes, parent⟩ columns ty.tree :=
    Layout.covers_layout parent hl hp fun id n config hn hc => hknown id config (hconfig hn hc)
  have hfield : ∀ id, ty.tree.field? id ≠ none → ∀ name ∈ ty.tree.layout.palettes.names,
      id ≠ paletteId (follow (table.renamings key) name) := by
    intro id hf name hn
    rcases ha.ends_cases h hty hn with hend | ⟨hkey, hend⟩ <;> rw [hend]
    · exact Layout.ne_paletteId_of_field hl hf hn
    · obtain ⟨config, hc⟩ := FormTree.exists_config (Option.isSome_iff_ne_none.2 hf)
      exact fun he => hid id config hc ⟨key, hkey, name, h.palettes_subset hty name hn, he⟩
  have hlabel : Text.Plain (FormTree.empty table.options.defaultTabLabel).defaultTabLabel := h.label
  obtain ⟨r, hr, hitems, hpalettes⟩ := hcovers.read_redirect (ha.redirects h hty) hl hp ht hnum
    hfield hlabel (h.parse_compiled hty)
  exact ⟨r.tree, r.asked.reverse, hr, hitems, fun he => hpalettes _ he⟩

end Loaded

/-- A table that was loaded from the compiled document of another one. -/
structure Reloads (table again : Table) : Prop where
  options : again.options = table.options
  document : .object again.document = table.compile
  columns : again.columns = table.compileTypes.columns
  palettes : again.palettes = table.compileTypes.palettes
  palette_documents : again.paletteDocuments = table.compiledPalettes
  order : again.typeOrder = table.typeOrder
  base_key : again.base.key = table.base.key
  base : table.Repeats table.base.key table.base again.base.tree
  base_document : again.base.document = documentOf table.compileTypes.types table.base.key
  types {key : String} {ty : TableType} : key ≠ table.base.key → table.types.get? key = some ty →
    ∃ u, again.types.get? key = some u ∧ table.Repeats key ty u.tree ∧
      u.columns = (table.reductionOf (table.before key) ty).overrides ∧
      u.document = documentOf table.compileTypes.types key

namespace Loaded

theorem baseKey_outcome (h : table.Loaded) :
    table.outcome.baseKey table.options = table.base.key := h.base_key h.names_types

theorem filled_outcome (h : table.Loaded) (ha : table.Apart) (hc : table.ColumnsApart) :
    ∃ tree asked, table.outcome.filled table.options =
        ⟨tree, table.compileTypes.columns, asked, none⟩ ∧
      table.Repeats table.base.key table.base tree := by
  have hread := h.base_read
  have hknown : ∀ id config, (table.base.tree.field? id).bind Node.config? = some config →
      table.columns.get? id = some config := fun id config hconfig => hread.config?_eq hconfig
  obtain ⟨tree, asked, hr, hrepeats⟩ := h.read_again ha (type?_base table) hread.linked h.base_tabs
    (hread.unnumbered_within hread.linked (.refl _)) table.compileTypes.columns none
    (fun id config hconfig => Option.isSome_of_eq_some
      (h.within table.typeOrder id config (hknown id config hconfig)))
    fun id config hconfig => hc.columns (Entries.mem_names_iff.2 ⟨config, hknown id config hconfig⟩)
  refine ⟨tree, asked, ?_, hrepeats⟩
  rw [Source.filled, h.baseKey_outcome, Source.palettes]
  exact (congrArg (fun palettes => Layout.read ⟨_, palettes⟩ _ _ _)
    (palettesOf_compiledPalettes table)).trans hr

theorem lookup_outcome (h : table.Loaded) (ha : table.Apart) (hc : table.ColumnsApart) :
    table.outcome.lookup table.options = fun id => table.compileTypes.columns.get? id := by
  obtain ⟨tree, asked, hfilled, _⟩ := h.filled_outcome ha hc
  have hfail : (table.outcome.filled table.options).failure = none := by rw [hfilled]
  have hread := (reading_of_read _ _ _ _ hfail).1
  have hlookup : table.outcome.lookup table.options =
    fun id => (table.outcome.filled table.options).columns.get? id := baseConfig?_of_sound hread
  rw [hlookup, hfilled]

theorem readType_outcome (h : table.Loaded) (ha : table.Apart) (hc : table.ColumnsApart)
    (name : String) (hk : key ≠ table.base.key) (ht : table.types.get? key = some ty) :
    ∃ u, readType name table.options table.compileTypes.palettes
        (fun id => table.compileTypes.columns.get? id) key
        (documentOf table.compileTypes.types key) = .ok u ∧ table.Repeats key ty u.tree ∧
      u.columns = (table.reductionOf (table.before key) ty).overrides ∧
      u.document = documentOf table.compileTypes.types key := by
  have hread := h.type_read ht
  have hknown : ∀ id config, (ty.tree.field? id).bind Node.config? = some config →
      (Layout.Surroundings.config? ⟨table.compileTypes.palettes,
        some fun id => table.compileTypes.columns.get? id⟩
        (table.reductionOf (table.before key) ty).overrides id).isSome = true := by
    intro id config hconfig
    obtain ⟨known, hknown⟩ := h.grounded.has_compiled ht hread.linked.joined hconfig
    cases ho : (table.reductionOf (table.before key) ty).overrides.get? id with
    | none =>
      rw [Layout.Surroundings.config?_plain ho, hknown]
      rfl
    | some change =>
      rw [Layout.Surroundings.config?_override hknown ho]
      rfl
  have hapart : ∀ id config, (ty.tree.field? id).bind Node.config? = some config →
      ¬ table.Reserves id := by
    intro id config hconfig
    have hown := hread.config?_eq hconfig
    cases ho : ty.columns.get? id with
    | none =>
      rw [Layout.Surroundings.config?_plain ho] at hown
      exact hc.columns (Entries.mem_names_iff.2 ⟨config, hown⟩)
    | some change => exact hc.overrides ht (Entries.mem_names_iff.2 ⟨change, ho⟩)
  obtain ⟨tree, asked, hr, hrepeats⟩ := h.read_again ha ((type?_of_ne hk).trans ht) hread.linked
    (h.type_tabs ht) (hread.unnumbered_within hread.linked (.refl _)) _ _ hknown hapart
  have hcolumns := columnsOf_typeDocument name ("types." ++ key ++ ".columnsOverrides")
    ty.document (table.foldOf (table.before key) key ty).showItem
    (table.reductionOf (table.before key) ty).overrides
  rw [← h.documentOf_types hk ht] at hcolumns
  refine ⟨_, readType_ok_iff.2 ⟨_, hcolumns, ?_, rfl⟩, ?_, ?_, rfl⟩
  · rw [hr]
  · rw [hr]
    exact hrepeats
  · rw [hr]
    rfl

/-- The types of a compiled document are read one after the other. -/
theorem readTypes_outcome (h : table.Loaded) (ha : table.Apart) (hc : table.ColumnsApart)
    (name : String) : ∃ types, table.outcome.readTypes table.options name = .ok types ∧
      ∀ key ty, key ≠ table.base.key → table.types.get? key = some ty →
        ∃ u, Entries.get? types key = some u ∧ table.Repeats key ty u.tree ∧
          u.columns = (table.reductionOf (table.before key) ty).overrides ∧
          u.document = documentOf table.compileTypes.types key := by
  have hkeys : table.outcome.documents.names.filter
      (· ≠ table.outcome.baseKey table.options) =
      table.typeOrder.filter (· ≠ table.base.key) := by
    rw [h.baseKey_outcome]
    exact congrArg _ h.names_types
  have hpalettes : table.outcome.palettes = table.compileTypes.palettes :=
    palettesOf_compiledPalettes table
  have hread : ∀ key ∈ table.typeOrder.filter (· ≠ table.base.key), ∃ e : String × TableType,
      e.1 = key ∧ readType name table.options table.outcome.palettes
        (table.outcome.lookup table.options) key (documentOf table.outcome.documents key) =
          .ok e.2 ∧
      ∀ ty, table.types.get? key = some ty → table.Repeats key ty e.2.tree ∧
        e.2.columns = (table.reductionOf (table.before key) ty).overrides ∧
        e.2.document = documentOf table.compileTypes.types key := by
    intro key hm
    obtain ⟨hmem, hk⟩ := List.mem_filter.1 hm
    have hk : key ≠ table.base.key := of_decide_eq_true hk
    obtain ⟨ty, hty⟩ := h.typed hmem
    have ht := (type?_of_ne hk).symm.trans hty
    obtain ⟨u, hu, hfacts⟩ := h.readType_outcome ha hc name hk ht
    refine ⟨(key, u), rfl, ?_, fun ty' ht' => ?_⟩
    · rw [hpalettes, h.lookup_outcome ha hc]
      exact hu
    · cases ht.symm.trans ht'
      exact hfacts
  obtain ⟨types, htypes⟩ := exists_forall₂ hread
  have hnames : Entries.names types = table.typeOrder.filter (· ≠ table.base.key) := by
    have heq : List.Forall₂ Eq (table.typeOrder.filter (· ≠ table.base.key)) (types.map Prod.fst) :=
      List.forall₂_map_right_iff.2 (htypes.imp fun key e he => he.1.symm)
    rw [List.forall₂_eq_eq_eq] at heq
    exact heq.symm
  have hdistinct : Entries.Distinct types := by
    rw [Entries.Distinct, hnames]
    exact h.order.filter _
  refine ⟨types, ?_, fun key ty hk ht => ?_⟩
  · apply Source.readTypes_ok_iff.2
    rw [hkeys]
    exact htypes.imp fun key e he => ⟨he.1, he.2.1⟩
  · have hm : key ∈ table.typeOrder.filter (· ≠ table.base.key) :=
      List.mem_filter.2 ⟨h.type_mem ht, decide_eq_true hk⟩
    obtain ⟨e, he, rfl, _, hfacts⟩ := exists_of_forall₂ htypes.flip hm
    exact ⟨e.2, Entries.get?_of_mem hdistinct he, hfacts ty ht⟩

theorem documents_outcome (h : table.Loaded) : table.outcome.documents.isEmpty = false := by
  have hmem := h.base_mem
  rw [← h.names_types] at hmem
  rw [outcome]
  cases ht : table.compileTypes.types with
  | nil =>
    rw [ht] at hmem
    cases hmem
  | cons e rest => rfl

/-- A compiled document is loaded with all that was compiled. -/
theorem reloads (h : table.Loaded) (ha : table.Apart) (hc : table.ColumnsApart) (name : String) :
    ∃ again, Table.read name table.compile table.options = .ok again ∧ table.Reloads again := by
  obtain ⟨tree, asked, hfilled, hrepeats⟩ := h.filled_outcome ha hc
  obtain ⟨types, hok, hfacts⟩ := h.readTypes_outcome ha hc name
  refine ⟨table.outcome.table table.options name types,
    read_ok_iff.2 ⟨_, h.outcome_in name, by rw [hfilled], types, hok, rfl⟩, ?_⟩
  constructor
  case options => rfl
  case document => exact (compile_eq table).symm
  case columns =>
    change (table.outcome.filled table.options).columns = _
    rw [hfilled]
  case palettes => exact palettesOf_compiledPalettes table
  case palette_documents => rfl
  case order =>
    change (if table.outcome.documents.isEmpty then _ else table.outcome.documents.names) = _
    rw [h.documents_outcome, if_neg Bool.false_ne_true]
    exact h.names_types
  case base_key => exact h.baseKey_outcome
  case base =>
    change table.Repeats _ _ (table.outcome.filled table.options).tree
    rw [hfilled]
    exact hrepeats
  case base_document =>
    change documentOf table.outcome.documents (table.outcome.baseKey table.options) = _
    rw [h.baseKey_outcome]
    rfl
  case types => exact fun {key ty} hk ht => hfacts key ty hk ht

end Loaded

end Table

end FormLayout
