import FormLayout.Proofs.Layout.Columns
import FormLayout.Proofs.Table.Editing
/-!
What holds of a table that was just loaded: every tree is as its layout was read, and all parts of
its document are proper.
-/

namespace FormLayout
set_option autoImplicit true
open Value

theorem Value.ofFields_columns {m : Fields} (h : ∀ e ∈ m, e.2.fields?.isSome = true) :
    Value.ofFields (Columns.ofFields m) = .object m := by
  induction m with
  | nil => rfl
  | cons e rest ih =>
    obtain ⟨k, v⟩ := e
    rw [List.forall_mem_cons] at h
    have hrest := Value.object.inj (ih h.2)
    cases v with
    | object fields => exact congrArg (fun m => Value.object ((k, .object fields) :: m)) hrest
    | _ => cases h.1

theorem Columns.ofFields_map (m : Columns) :
    Columns.ofFields (m.map fun e => (e.1, .object e.2)) = m := by
  induction m with
  | nil => rfl
  | cons e rest ih => exact congrArg (e :: ·) ih

namespace Table

variable {table : Table} {name path : String} {options : Options}

theorem objects_object {m : Fields} (h : ∀ e ∈ m, e.2.fields?.isSome = true) :
    objects name path (some (.object m)) = .ok m := by
  rw [objects]
  split
  · next e he =>
    have hm := h e (List.mem_of_find?_eq_some he)
    have hn := List.find?_some he
    rw [Option.isNone_iff_eq_none] at hn
    rw [hn] at hm
    cases hm
  · rfl

theorem columnsOf_ofFields {columns : Columns} (name path : String) :
    columnsOf name path (some (.ofFields columns)) = .ok columns := by
  rw [columnsOf, Value.ofFields, objects_object]
  · exact congrArg Except.ok (Columns.ofFields_map columns)
  · intro e he
    obtain ⟨a, _, rfl⟩ := List.mem_map.1 he
    rfl

theorem proper_objects (h : objects name path part = .ok m)
    (hv : ∀ v, part = some v → v.Proper) : Proper (.object m) := by
  rcases objects_ok h with rfl | ⟨hm, _⟩
  · exact proper_empty
  · exact hv _ hm

theorem proper_columnsOf {columns : Columns} (h : columnsOf name path part = .ok columns)
    (hv : ∀ v, part = some v → v.Proper) : Proper (.ofFields columns) := by
  obtain ⟨m, hm, rfl⟩ := exists_of_map_eq_ok h
  have hp := proper_objects hm hv
  rcases objects_ok hm with rfl | ⟨_, ho⟩
  · exact hp
  · rwa [Value.ofFields_columns ho]

theorem proper_documentOf {documents : Fields} (h : Proper (.object documents)) (key : String) :
    Proper (.object (documentOf documents key)) :=
  proper_fields fun _ hv => h.get? hv

/-- Columns stay proper while empty configurations are put in. -/
theorem proper_columns_read {columns : Columns} (h : Proper (.ofFields columns)) (layout : Layout)
    (tree : FormTree) (parent : Option (String → Option Fields)) :
    Proper (.ofFields (layout.read tree columns parent).columns) := by
  apply Layout.columns_read (P := fun columns => Proper (.ofFields columns)) _ h
  intro columns id hc
  rw [proper_ofFields_iff] at hc ⊢
  refine ⟨hc.1.put id [], fun x fields hx => ?_⟩
  rw [Entries.get?_put] at hx
  split at hx
  · rw [← Option.some.inj hx]
    exact .object List.nodup_nil (by simp)
  · exact hc.2 x fields hx

/-- A table as it is after loading. -/
structure Parsed (table : Table) : Prop extends table.Ordered where
  base_read : Layout.Reading.Sound ⟨table.palettes, none⟩ table.options.defaultTabLabel
    ⟨table.base.tree, table.columns, none, []⟩
  base_tabs : table.base.tree.tabs ≠ []
  type_read {key : String} {ty : TableType} : table.types.get? key = some ty →
    Layout.Reading.Sound ⟨table.palettes, some fun id => table.columns.get? id⟩
      table.options.defaultTabLabel ⟨ty.tree, ty.columns, none, []⟩
  type_tabs {key : String} {ty : TableType} : table.types.get? key = some ty → ty.tree.tabs ≠ []
  base_key {types : Fields} : types.names = table.typeOrder →
    Table.baseKey table.options types = table.base.key
  palettes_eq : table.palettes = palettesOf table.paletteDocuments
  proper_columns : Proper (.ofFields table.columns)
  proper_overrides {key : String} {ty : TableType} : table.types.get? key = some ty →
    Proper (.ofFields ty.columns)
  proper_document : Proper (.object table.document)
  proper_palettes : Proper (.object table.paletteDocuments)
  proper_type {key : String} {ty : TableType} : table.type? key = some ty →
    Proper (.object ty.document)

/-- A table that was loaded with plain keys. -/
structure Loaded (table : Table) : Prop extends table.Sound, table.Parsed

theorem reading_of_read (layout : Layout) (tree : FormTree) (columns : Columns)
    (parent : Option (String → Option Fields))
    (h : (layout.read tree columns parent).failure = none) :
    Layout.Reading.Sound ⟨layout.palettes, parent⟩ tree.defaultTabLabel
        ⟨(layout.read tree columns parent).tree, (layout.read tree columns parent).columns, none,
          []⟩ ∧
      (layout.read tree columns parent).tree.tabs ≠ [] := by
  obtain ⟨r, htree, hcolumns, hs, htabs⟩ := Layout.read_sound layout tree columns parent
  rw [htree, hcolumns]
  exact ⟨⟨hs.linked, hs.numbered, hs.holds⟩, htabs h⟩

/-- The lookup in a base that was read is that in its columns. -/
theorem baseConfig?_of_sound {tree : FormTree} {columns : Columns} {palettes : Palettes}
    {label : String}
    (h : Layout.Reading.Sound ⟨palettes, none⟩ label ⟨tree, columns, none, []⟩) :
    FormLayout.baseConfig? tree columns = fun id => columns.get? id := by
  funext id
  rw [FormLayout.baseConfig?]
  cases hc : (tree.field? id).bind Node.config? with
  | none => rfl
  | some config => exact (h.config?_eq hc).symm

theorem baseKey_congr {types types' : Fields} (h : types.names = types'.names) :
    baseKey options types = baseKey options types' := by
  have hempty : types.isEmpty = types'.isEmpty := by
    have hl := congrArg List.isEmpty h
    rwa [Entries.names, Entries.names, List.isEmpty_map, List.isEmpty_map] at hl
  have hhas (key : String) : types.has key = types'.has key := by
    rw [Bool.eq_iff_iff, Entries.has_iff, Entries.has_iff, h]
  rw [baseKey, baseKey, h, hempty]
  cases options.baseTypeKey with
  | none => rfl
  | some key => simp only [hhas]

theorem baseKey_of_singleton {types : Fields} (h : types.names = [baseKey options []]) :
    baseKey options types = baseKey options [] := by
  have hempty : types.isEmpty = false := by
    cases types with
    | nil => cases h
    | cons e rest => rfl
  have hhas (key : String) : types.has key = decide (key = baseKey options []) := by
    rw [Bool.eq_iff_iff, Entries.has_iff, h, List.mem_singleton, decide_eq_true_iff]
  rw [baseKey, h, hempty]
  cases ho : options.baseTypeKey with
  | none => rfl
  | some key =>
    have hkey : baseKey options [] = key := by
      rw [baseKey, ho]
      rfl
    rw [hkey] at hhas ⊢
    simp [hhas]

/-- A type that was read of a proper document. -/
theorem type_of_read {source : Source} {types : Entries TableType} {key : String} {ty : TableType}
    (hdocuments : Proper (.object source.documents))
    (hlookup : source.lookup options = fun id => (source.filled options).columns.get? id)
    (ht : source.readTypes options name = .ok types) (hty : Entries.get? types key = some ty) :
    (Layout.Reading.Sound
        ⟨source.palettes, some fun id => (source.filled options).columns.get? id⟩
        options.defaultTabLabel ⟨ty.tree, ty.columns, none, []⟩ ∧ ty.tree.tabs ≠ []) ∧
      Proper (.ofFields ty.columns) ∧ ty.document = documentOf source.documents key := by
  obtain ⟨_, _, hread⟩ := Source.readType_of_readTypes ht hty
  rw [hlookup] at hread
  obtain ⟨columns, hc, hfail, he⟩ := readType_ok_iff.1 hread
  have hp := proper_documentOf hdocuments key
  rw [show ty = _ from he]
  exact ⟨reading_of_read _ _ _ _ hfail,
    proper_columns_read (proper_columnsOf hc fun v hv => hp.get? hv) _ _ _, rfl⟩

theorem baseKey_of_names {source : Source} {types : Fields} (h : types.names =
      if source.documents.isEmpty then [source.baseKey options] else source.documents.names) :
    baseKey options types = source.baseKey options := by
  cases he : source.documents.isEmpty with
  | true =>
    rw [he, if_pos rfl, Source.baseKey, List.isEmpty_iff.1 he] at h
    rw [Source.baseKey, List.isEmpty_iff.1 he]
    exact baseKey_of_singleton h
  | false =>
    rw [he, if_neg Bool.false_ne_true] at h
    exact baseKey_congr h

theorem parsed_of_read {value : Value} (hv : value.Proper)
    (h : Table.read name value options = .ok table) : table.Parsed := by
  have hordered := ordered_of_read hv h
  obtain ⟨source, hs, hf, types, ht, rfl⟩ := read_ok_iff.1 h
  have hdocument := hv
  rw [hs.document] at hdocument
  have hpart (part : String) : ∀ v, source.document.get? part = some v → v.Proper :=
    fun v hv => hdocument.get? hv
  have htypes := proper_objects hs.types (hpart "types")
  obtain ⟨hbase, hbasetabs⟩ := reading_of_read _ _ _ _ hf
  have hread {key ty} (hty : Entries.get? types key = some ty) :=
    type_of_read htypes (baseConfig?_of_sound hbase) ht hty
  constructor
  case toOrdered => exact hordered
  case base_read => exact hbase
  case base_tabs => exact hbasetabs
  case type_read => exact fun hty => (hread hty).1.1
  case type_tabs => exact fun hty => (hread hty).1.2
  case base_key => exact fun hn => baseKey_of_names hn
  case palettes_eq => rfl
  case proper_columns =>
    exact proper_columns_read (proper_columnsOf hs.columns (hpart "columns")) _ _ _
  case proper_overrides => exact fun hty => (hread hty).2.1
  case proper_document => exact hdocument
  case proper_palettes => exact proper_objects hs.palettes (hpart "palettes")
  case proper_type =>
    intro key ty hty
    rw [type?] at hty
    split at hty
    · rw [← Option.some.inj hty]
      exact proper_documentOf htypes _
    · rw [(hread hty).2.2]
      exact proper_documentOf htypes _

theorem loaded_of_read {value : Value} (hv : value.Proper)
    (hl : Text.Plain options.defaultTabLabel) (h : Table.read name value options = .ok table)
    (hk : ∀ key ∈ table.typeOrder, Text.Plain key) : table.Loaded :=
  { sound_of_read hv hl h hk, parsed_of_read hv h with }

end Table

end FormLayout
