import FormLayout.Proofs.Column.Least
import FormLayout.Proofs.Table.Tidy
/-!
What a derived type sees of its fields in a compiled document: the columns of the document, with the
overrides of the type over them.
-/

namespace FormLayout
set_option autoImplicit true
open Value Column

namespace Table

/-- The configuration of a column with the override that a type has for it. -/
def configIn (document : Value) (key id : String) : Option Fields :=
  (((partOf document "columns").get? id).bind Value.fields?).map fun known =>
    merge known ((((overridesIn document key).get? id).bind Value.fields?).getD [])

/-- The configuration of a column in the first of some types that shows or stores it. -/
def firstConfig? (table : Table) (keys : List String) (id : String) : Option Fields :=
  keys.findSome? fun key => (table.types.get? key).bind fun ty => (ty.allColumns []).get? id

/-- The configuration that a type has to share with an earlier one, as the base does not know the
column. -/
def shared? (table : Table) (key id : String) : Option Fields :=
  if (table.baseConfig? id).isSome then none
  else table.firstConfig? (table.typeOrder.takeWhile (· ≠ key)) id

variable {table : Table} {key id : String} {ty : TableType}

/-- What is written over a known configuration has the effect of the other one. -/
theorem looseEq_merge_override? {known config : Fields} (hk : Proper (.object known))
    (hc : Proper (.object config)) :
    looseEq (.object (merge known ((override? known config).getD [])))
      (.object (merge known config)) = true := by
  have hdiff : (override? known config).getD [] = diff known config := by
    cases ho : override? known config with
    | some change => exact (override?_eq_some_iff.1 ho).2.symm
    | none =>
      rw [override?, ite_eq_left_iff] at ho
      by_contra hne
      refine absurd (ho ?_) (by simp)
      rintro (he | hnil)
      · exact hne (diff_of_equal hk hc he).symm
      · exact hne hnil.symm
  rw [hdiff]
  exact looseEq_merge_diff hk hc

namespace Parsed

theorem baseConfig?_eq (h : table.Parsed) :
    table.baseConfig? = fun id => table.columns.get? id := baseConfig?_of_sound h.base_read

/-- A column that the base does not know is the one of the first type that has it. -/
theorem get?_columns_compiled (h : table.Parsed) (keys : List String) (id : String) :
    (table.compiled keys).columns.get? id =
      (table.columns.get? id).or (table.firstConfig? keys id) := by
  induction keys using List.reverseRecOn with
  | nil =>
    rw [compiled, List.foldl_nil]
    dsimp only
    rw [h.baseColumns_eq]
    exact Option.or_none.symm
  | append_singleton init key ih =>
    have hfirst : table.firstConfig? (init ++ [key]) id = (table.firstConfig? init id).or
        ((table.types.get? key).bind fun ty => (ty.allColumns []).get? id) := by
      rw [firstConfig?, List.findSome?_append, List.findSome?_singleton]
      rfl
    rw [compiled_concat, hfirst]
    cases ht : table.types.get? key with
    | none =>
      obtain ⟨types, he⟩ := compileType_skip (table.compiled init) ht
      rw [Option.bind_none, Option.or_none, ← ih, he]
    | some ty =>
      have hreduces := (h.grounded.stage init).reduces h.grounded ty
      rw [compileType_derived _ (h.ne_base ht) ht, hreduces.get?_base, Option.bind_some,
        ← Option.or_assoc, ← ih]
      cases hx : (table.compiled init).columns.get? id with
      | some known => rfl
      | none =>
        rw [TableType.get?_allColumns (h.type_read ht).linked.joined,
          TableType.get?_allColumns (h.type_read ht).linked.joined, hx]
        rfl

theorem configIn_compile_eq (h : table.Parsed) (ht : table.types.get? key = some ty)
    (hk : table.compileTypes.columns.get? id = some known) : configIn table.compile key id =
      some (merge known
        (((table.reductionOf (table.before key) ty).overrides.get? id).getD [])) := by
  rw [configIn, get?_compile_columns, hk, h.overridesIn_compile ht, Entries.get?_map]
  cases (table.reductionOf (table.before key) ty).overrides.get? id <;> rfl

theorem shared?_eq (h : table.Parsed) (key id : String) : table.shared? key id =
    if (table.columns.get? id).isSome then none
    else table.firstConfig? (table.typeOrder.takeWhile (· ≠ key)) id := by
  rw [shared?, h.baseConfig?_eq]

/-- What is known of a column before a type is compiled: the column of the base, or the one that the
type has to share. -/
theorem get?_before (h : table.Parsed) (key id : String) : (table.before key).columns.get? id =
    (table.columns.get? id).or (table.shared? key id) := by
  rw [h.shared?_eq]
  refine (h.get?_columns_compiled _ id).trans ?_
  cases table.columns.get? id <;> rfl

theorem shared?_of_known (h : table.Parsed) (hk : table.columns.get? id = some known) :
    table.shared? key id = none := by
  rw [h.shared?_eq, hk, Option.isSome_some, if_pos rfl]

/-- The configuration of a field in a tree has all of the base's column in it. -/
theorem merge_config (h : table.Parsed) (ht : table.types.get? key = some ty)
    (hk : table.columns.get? id = some known)
    (hf : (ty.tree.field? id).bind Node.config? = some config) : merge known config = config := by
  have hknown := (proper_ofFields_iff.1 h.proper_columns).2 id known hk
  have hown := (h.type_read ht).config?_eq hf
  cases ho : ty.columns.get? id with
  | none =>
    rw [Layout.Surroundings.config?_plain ho, hk, Option.some_inj] at hown
    rw [← hown]
    exact merge_self hknown
  | some change =>
    rw [Layout.Surroundings.config?_override hk ho, Option.some_inj] at hown
    rw [← hown]
    exact merge_merge hknown ((proper_ofFields_iff.1 (h.proper_overrides ht)).2 id change ho)

end Parsed

/-- A type sees its fields in the compiled document as in its tree. A field that it has to share
with an earlier type has the configuration of that type beneath. -/
theorem configIn_compile {name : String} {value : Value} {options : Options} (hv : value.Proper)
    (hread : Table.read name value options = .ok table) (ht : table.types.get? key = some ty)
    (hf : (ty.tree.field? id).bind Node.config? = some config) :
    ∃ seen, configIn table.compile key id = some seen ∧
      looseEq (.object seen) (.object (match table.shared? key id with
        | some first => merge first config
        | none => config)) = true := by
  have h : table.Parsed := parsed_of_read hv hread
  have hproper : Proper (.ofFields (table.before key).columns) := h.proper_compiled _
  have hreduces := (h.grounded.stage_before key).reduces h.grounded ty
  have hall : (ty.allColumns (table.before key).columns).get? id = some config := by
    rw [TableType.get?_allColumns (h.type_read ht).linked.joined, hf]
    rfl
  have hconfig := (proper_ofFields_iff.1 (h.proper_all ht hproper)).2 id config hall
  have hbase := hreduces.get?_base id
  have hoverride := hreduces.get?_overrides id
  have hbefore := h.get?_before key id
  rw [hall] at hbase hoverride
  cases hx : (table.before key).columns.get? id with
  | none =>
    -- The type is the first that has the field, so the field has its configuration.
    rw [hx] at hbase hoverride hbefore
    have hcompiled := h.grounded.within_compiled ht id config hbase
    refine ⟨_, h.configIn_compile_eq ht hcompiled, ?_⟩
    rw [hoverride, (Option.or_eq_none_iff.1 hbefore.symm).2]
    exact looseEq_refl hconfig
  | some known =>
    rw [hx] at hbase hoverride hbefore
    have hcompiled := h.grounded.within_compiled ht id known hbase
    have hknown := (proper_ofFields_iff.1 hproper).2 id known hx
    have hloose := looseEq_merge_override? hknown hconfig
    refine ⟨_, h.configIn_compile_eq ht hcompiled, ?_⟩
    rw [hoverride]
    cases hc : table.columns.get? id with
    | none =>
      rw [hc, Option.none_or] at hbefore
      rw [← hbefore]
      exact hloose
    | some first =>
      rw [hc, Option.some_or, Option.some_inj] at hbefore
      rw [hbefore, h.merge_config ht hc hf] at hloose
      rw [h.shared?_of_known hc, hbefore]
      exact hloose

/-- A document where a type overrides a column of the base. -/
def overriddenColumn : Value := .object [
  ("columns", .object [("a", .object [("label", .string "A"), ("size", .string "3")])]),
  ("types", .object [
    ("0", .object [("showitem", .string "a")]),
    ("1", .object [("showitem", .string "a"), ("columnsOverrides", .object [
      ("a", .object [("label", .string "B")])])])])]

theorem configIn_overriddenColumn : ∃ (table : Table) (ty : TableType) (config : Fields),
    Table.read "pages" overriddenColumn ⟨"general", none, false⟩ = .ok table ∧
    table.types.get? "1" = some ty ∧ (ty.tree.field? "a").bind Node.config? = some config ∧
    ∃ seen, configIn table.compile "1" "a" = some seen ∧
      looseEq (.object seen) (.object (match table.shared? "1" "a" with
        | some first => merge first config
        | none => config)) = true := by
  obtain ⟨table, hread, h⟩ := exists_of_check
    (x := Table.read "pages" overriddenColumn ⟨"general", none, false⟩)
    (p := fun table : Table => (table.types.get? "1").any fun ty : TableType =>
      ((ty.tree.field? "a").bind Node.config?).isSome) (by decide +kernel)
  obtain ⟨ty, ht, hshown⟩ := (Option.any_eq_true _ _).1 h
  obtain ⟨config, hf⟩ := Option.isSome_iff_exists.1 hshown
  refine ⟨table, ty, config, hread, ht, hf, configIn_compile ?_ hread ht hf⟩
  simp [overriddenColumn, proper_object_iff, Entries.Distinct, Entries.names, Proper.string]

/-- A document with a column of two types that the base does not know. -/
def sharedColumn : Value := .object [
  ("columns", .object []),
  ("types", .object [
    ("0", .object [("showitem", .string "")]),
    ("1", .object [("showitem", .string "x"), ("columnsOverrides", .object [
      ("x", .object [("a", .number (.integer 1))])])]),
    ("2", .object [("showitem", .string "x"), ("columnsOverrides", .object [
      ("x", .object [("b", .number (.integer 2))])])])])]

/-- The second type cannot drop what the first one has set. -/
theorem configIn_sharedColumn : ∃ (table : Table) (ty : TableType) (config seen : Fields),
    Table.read "pages" sharedColumn ⟨"general", none, false⟩ = .ok table ∧
    table.types.get? "2" = some ty ∧ (ty.tree.field? "x").bind Node.config? = some config ∧
    configIn table.compile "2" "x" = some seen ∧
    looseEq (.object seen) (.object config) = false := by
  obtain ⟨table, hread, h⟩ := exists_of_check
    (x := Table.read "pages" sharedColumn ⟨"general", none, false⟩)
    (p := fun table : Table => (table.types.get? "2").any fun ty : TableType =>
      ((ty.tree.field? "x").bind Node.config?).any fun config : Fields =>
        (configIn table.compile "2" "x").any fun seen : Fields =>
          !looseEq (.object seen) (.object config)) (by decide +kernel)
  obtain ⟨ty, ht, h⟩ := (Option.any_eq_true _ _).1 h
  obtain ⟨config, hf, h⟩ := (Option.any_eq_true _ _).1 h
  obtain ⟨seen, hseen, h⟩ := (Option.any_eq_true _ _).1 h
  rw [Bool.not_eq_true'] at h
  exact ⟨table, ty, config, seen, hread, ht, hf, hseen, h⟩

end Table

end FormLayout
