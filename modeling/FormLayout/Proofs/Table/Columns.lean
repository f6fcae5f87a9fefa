import FormLayout.Proofs.Column.Reduction
import FormLayout.Proofs.Table.Compiling
import FormLayout.Proofs.Table.Loaded
/-!
The columns in a compiled document: what the types add to those of the table, and what each type
writes over them.
-/

namespace FormLayout
set_option autoImplicit true
open Value Column

theorem FormTree.Joined.mem_fields {t : FormTree} (h : t.Joined loose) :
    n ∈ t.fields ↔ t.field? n.id = some n := by
  rw [fields, List.mem_filter, h.mem_walk, field?, Option.filter_eq_some_iff]
  refine and_congr_left fun hk => ⟨?_, fun hn => ?_⟩
  · rintro ⟨_, x, _, _, hx⟩
    rwa [h.keyed hx]
  · have hl : ¬ loose n.id := by
      intro hl
      rw [h.stray hl hn] at hk
      cases hk
    obtain ⟨tab, ht, hb⟩ := h.below_tab hn hl
    exact ⟨tab, n.id, ht, hb, hn⟩

namespace Layout.Surroundings

variable {palettes : Palettes} {lookup : String → Option Fields} {columns : Columns} {id : String}

theorem config?_override (hk : lookup id = some known) (ho : columns.get? id = some change) :
    config? ⟨palettes, some lookup⟩ columns id = some (merge known change) := by
  rw [config?]
  dsimp only
  rw [hk, ho]

theorem config?_plain (ho : columns.get? id = none) :
    config? ⟨palettes, some lookup⟩ columns id = lookup id := by
  rw [config?]
  dsimp only
  rw [ho]
  cases lookup id <;> rfl

end Layout.Surroundings

namespace TableType

variable {ty : TableType} {base : Columns} {label : String} {around : Layout.Surroundings}

/-- The configurations of the fields in a tree. -/
theorem get?_shown {t : FormTree} (h : t.Joined loose) (id : String) :
    (Entries.ofList (t.fields.filterMap fun n => n.config?.map fun c => (n.id, c))).get? id =
      (t.field? id).bind Node.config? := by
  have hmem {x config} : (x, config) ∈ t.fields.filterMap (fun n => n.config?.map fun c => (n.id, c)) ↔
      (t.field? x).bind Node.config? = some config := by
    rw [List.mem_filterMap, Option.bind_eq_some_iff]
    constructor
    · rintro ⟨n, hn, hc⟩
      obtain ⟨c, hc, he⟩ := Option.map_eq_some_iff.1 hc
      cases he
      exact ⟨n, h.mem_fields.1 hn, hc⟩
    · rintro ⟨n, hn, hc⟩
      have hid : n.id = x := h.keyed (Option.filter_eq_some_iff.1 hn).1
      refine ⟨n, h.mem_fields.2 (hid.symm ▸ hn), ?_⟩
      rw [hc, hid, Option.map_some]
  cases hc : (t.field? id).bind Node.config? with
  | some config =>
    apply Entries.get?_ofList_of_forall (hmem.2 hc)
    intro w hw
    exact Option.some.inj ((hmem.1 hw).symm.trans hc)
  | none =>
    apply Entries.get?_eq_none_iff.2
    intro hn
    obtain ⟨w, hw⟩ := Entries.mem_names_iff.1 hn
    have hw' := hmem.1 (Entries.mem_of_mem_ofList (Entries.mem_of_get? hw))
    cases hc.symm.trans hw'

theorem get?_allColumns (h : ty.tree.Joined loose) (base : Columns) (id : String) :
    (ty.allColumns base).get? id = ((ty.tree.field? id).bind Node.config?).or
      ((ty.columns.get? id).map (merge ((base.get? id).getD []))) := by
  rw [allColumns]
  refine (Entries.get?_foldl_absent (fun id => merge ((base.get? id).getD [])) _ _ id).trans ?_
  rw [get?_shown h]

theorem distinct_allColumns (ty : TableType) (base : Columns) : (ty.allColumns base).Distinct :=
  (Entries.distinct_ofList _).foldl_absent (fun id => merge ((base.get? id).getD [])) _

variable {columns : Columns}

/-- A column that the type overrides has the override over the column of the table. -/
theorem get?_allColumns_override (h : Layout.Reading.Sound ⟨palettes, some fun id => columns.get? id⟩
      label ⟨ty.tree, ty.columns, none, []⟩) {id : String}
    (hk : columns.get? id = some known) (ho : ty.columns.get? id = some change) :
    (ty.allColumns columns).get? id = some (merge known change) := by
  rw [get?_allColumns h.linked.joined, ho, hk, Option.map_some, Option.getD_some]
  cases hc : (ty.tree.field? id).bind Node.config? with
  | none => rfl
  | some config =>
    exact (h.config?_eq hc).symm.trans (Layout.Surroundings.config?_override hk ho)

/-- A column that the type does not override is that of the table. -/
theorem get?_allColumns_plain (h : Layout.Reading.Sound ⟨palettes, some fun id => columns.get? id⟩
      label ⟨ty.tree, ty.columns, none, []⟩) {id : String} (ho : ty.columns.get? id = none)
    (hid : (ty.allColumns columns).get? id = some config) : columns.get? id = some config := by
  rw [get?_allColumns h.linked.joined, ho, Option.map_none, Option.or_none] at hid
  exact (Layout.Surroundings.config?_plain ho).symm.trans (h.config?_eq hid)

end TableType

namespace Column

/-- Overrides that were written once are written again. -/
theorem Reduces.again {columns : Columns} {ty : TableType} {label : String}
    (h : Reduces columns (ty.allColumns columns) r) (hc : Proper (.ofFields columns))
    (hread : Layout.Reading.Sound ⟨palettes, some fun id => columns.get? id⟩ label
      ⟨ty.tree, ty.columns, none, []⟩) (hd : ty.columns.Distinct)
    (ho : ∀ id change, ty.columns.get? id = some change → ∃ known config,
      columns.get? id = some known ∧ Proper (.object config) ∧
        override? known config = some change) :
    r.base = columns ∧ equal (.ofFields r.overrides) (.ofFields ty.columns) = true := by
  constructor
  · apply h.base_eq
    intro id hm
    obtain ⟨config, hconfig⟩ := Entries.mem_names_iff.1 hm
    cases hown : ty.columns.get? id with
    | none =>
      exact Option.isSome_of_eq_some (TableType.get?_allColumns_plain hread hown hconfig)
    | some change =>
      obtain ⟨known, _, hk, _⟩ := ho id change hown
      exact Option.isSome_of_eq_some hk
  · apply (equal_ofFields_iff h.distinct_overrides hd).2
    intro id
    rw [h.get?_overrides]
    cases hown : ty.columns.get? id with
    | some change =>
      obtain ⟨known, config, hk, hp, hchange⟩ := ho id change hown
      obtain ⟨again, hagain, he⟩ :=
        override?_merge ((proper_ofFields_iff.1 hc).2 id known hk) hp hchange
      rw [hk, TableType.get?_allColumns_override hread hk hown, Option.bind_some, Option.bind_some,
        hagain]
      exact .some he
    | none =>
      have hnone : ((columns.get? id).bind fun known =>
          ((ty.allColumns columns).get? id).bind (override? known)) = none := by
        cases hconfig : (ty.allColumns columns).get? id with
        | none => cases columns.get? id <;> rfl
        | some config =>
          have hk := TableType.get?_allColumns_plain hread hown hconfig
          rw [hk, Option.bind_some, Option.bind_some]
          exact override?_self ((proper_ofFields_iff.1 hc).2 id config hk)
      rw [hnone]
      exact .none

end Column

namespace Table

variable {table : Table} {loose : String → Prop}

/-- The columns of the base are those that it knows, its tree before what is stored. -/
theorem get?_baseColumns (h : table.base.tree.Joined loose) (id : String) :
    table.baseColumns.get? id = table.baseConfig? id := by
  have he : table.baseColumns = table.columns.extend
      (table.base.tree.fields.filterMap fun n => n.config?.map fun config => (n.id, config)) := by
    rw [baseColumns, Entries.extend, List.foldl_filterMap]
    congr 1
    funext columns n
    cases n.config? <;> rfl
  rw [he, Entries.get?_extend, TableType.get?_shown h, baseConfig?, FormLayout.baseConfig?]
  cases (table.base.tree.field? id).bind Node.config? <;> rfl

theorem distinct_baseColumns (h : table.columns.Distinct) : table.baseColumns.Distinct := by
  rw [baseColumns]
  generalize table.base.tree.fields = fields
  generalize table.columns = columns at h
  induction fields generalizing columns with
  | nil => exact h
  | cons n rest ih =>
    rw [List.foldl_cons]
    apply ih
    split
    · exact h.put _ _
    · exact h

/-- The order of a table fits, and so does its base: what the tree of the base shows stands in a
tab, and no column is stored twice. -/
structure Grounded (table : Table) : Prop extends table.Ordered where
  joined : ∃ loose, table.base.tree.Joined loose
  distinct : table.columns.Distinct

/-- The columns on the way through the types: those of the base stay. -/
structure Stage (table : Table) (c : Compiled) : Prop where
  distinct : c.columns.Distinct
  within : table.baseColumns.Within c.columns

namespace Grounded

theorem has_of_isReal (h : table.Grounded) {id : String} (hr : table.isReal id = true) :
    table.baseColumns.has id = true := by
  obtain ⟨loose, hjoined⟩ := h.joined
  rw [Entries.has, get?_baseColumns hjoined, baseConfig?, FormLayout.baseConfig?]
  rw [isReal, Bool.or_eq_true] at hr
  split
  · rfl
  · next hnone =>
    refine hr.resolve_right fun hshown => ?_
    obtain ⟨config, hconfig⟩ := FormTree.exists_config hshown
    cases hnone.symm.trans hconfig

end Grounded

namespace Stage

variable {c : Compiled}

theorem reduces (hc : table.Stage c) (h : table.Grounded) (ty : TableType) :
    Reduces c.columns (ty.allColumns c.columns) (table.reductionOf c ty) :=
  Column.reduces hc.distinct (TableType.distinct_allColumns ty _) fun _ hr =>
    hc.within.has (h.has_of_isReal hr)

theorem within_reduction (hc : table.Stage c) (h : table.Grounded) (ty : TableType) :
    c.columns.Within (table.reductionOf c ty).base := by
  intro id known hk
  rw [(hc.reduces h ty).get?_base, hk, Option.some_or]

theorem compileType (hc : table.Stage c) (h : table.Grounded) (key : String) :
    table.Stage (table.compileType c key) ∧ c.columns.Within (table.compileType c key).columns := by
  cases ht : table.types.get? key with
  | none =>
    obtain ⟨types, he⟩ := compileType_skip c ht
    rw [he]
    exact ⟨⟨hc.distinct, hc.within⟩, .refl _⟩
  | some ty =>
    rw [compileType_derived c (h.ne_base ht) ht]
    have hw := hc.within_reduction h ty
    exact ⟨⟨(hc.reduces h ty).distinct_base, hc.within.trans hw⟩, hw⟩

end Stage

namespace Grounded

variable {key : String} {ty : TableType}

theorem stage (h : table.Grounded) (keys : List String) : table.Stage (table.compiled keys) := by
  induction keys using List.reverseRecOn with
  | nil => exact ⟨distinct_baseColumns h.distinct, .refl _⟩
  | append_singleton init key ih =>
    rw [compiled_concat]
    exact (ih.compileType h key).1

theorem stage_before (h : table.Grounded) (key : String) : table.Stage (table.before key) :=
  h.stage _

/-- What the base knows of a field stays in the columns. -/
theorem get?_compiled (h : table.Grounded) (keys : List String) {id : String}
    (hb : table.baseConfig? id = some config) :
    (table.compiled keys).columns.get? id = some config := by
  obtain ⟨loose, hj⟩ := h.joined
  apply (h.stage keys).within
  rw [get?_baseColumns hj, hb]

/-- What a type adds to the columns stays there while the other types are compiled. -/
theorem within_compiled (h : table.Grounded) (ht : table.types.get? key = some ty) :
    (table.reductionOf (table.before key) ty).base.Within table.compileTypes.columns := by
  refine compiled_induction h.order (P := fun keys c => key ∈ keys →
    (table.reductionOf (table.before key) ty).base.Within c.columns) (fun hm => nomatch hm) ?_
    (h.type_mem ht)
  intro keys k _ _ hbefore ih hm
  rcases List.mem_append.1 hm with hm | hm
  · exact (ih hm).trans ((h.stage keys).compileType h k).2
  · rw [← List.mem_singleton.1 hm] at hbefore ⊢
    rw [hbefore, compileType_derived _ (h.ne_base ht) ht]
    exact .refl _

/-- Every field that a type shows has a column. -/
theorem has_compiled (h : table.Grounded) (ht : table.types.get? key = some ty)
    (hj : ty.tree.Joined loose) {id : String}
    (hconfig : (ty.tree.field? id).bind Node.config? = some config) :
    ∃ known, table.compileTypes.columns.get? id = some known := by
  have hw := h.within_compiled ht
  have hall : (ty.allColumns (table.before key).columns).get? id = some config := by
    rw [TableType.get?_allColumns hj, hconfig]
    rfl
  have hbase := ((h.stage_before key).reduces h ty).get?_base id
  rw [hall] at hbase
  cases hx : (table.before key).columns.get? id with
  | none =>
    rw [hx] at hbase
    exact ⟨_, hw id _ hbase⟩
  | some known =>
    rw [hx] at hbase
    exact ⟨_, hw id _ hbase⟩

end Grounded

namespace Parsed

variable {key : String} {ty : TableType}

theorem grounded (h : table.Parsed) : table.Grounded :=
  { h with
    joined := ⟨_, h.base_read.linked.joined⟩
    distinct := (proper_ofFields_iff.1 h.proper_columns).1 }

/-- The base tree adds nothing to the columns. -/
theorem baseColumns_eq (h : table.Parsed) : table.baseColumns = table.columns := by
  apply Entries.foldl_eq_self
  intro n hn
  cases hc : n.config? with
  | none => rfl
  | some config =>
    have hf := h.base_read.linked.joined.mem_fields.1 hn
    have hconfig : (table.base.tree.field? n.id).bind Node.config? = some config := by
      rw [hf, Option.bind_some, hc]
    exact Entries.put_eq_self (h.base_read.config?_eq hconfig)

theorem within (h : table.Parsed) (keys : List String) :
    table.columns.Within (table.compiled keys).columns := by
  rw [← h.baseColumns_eq]
  exact (h.grounded.stage keys).within

end Parsed

end Table

end FormLayout
