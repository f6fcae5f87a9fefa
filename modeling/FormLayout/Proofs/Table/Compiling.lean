import FormLayout.Proofs.Palette.Fold
import FormLayout.Proofs.Table.Document
import FormLayout.Proofs.Table.Editing
/-!
The layouts in a compiled document, and the names under which the palettes of the types are stored
there.
-/

namespace FormLayout
set_option autoImplicit true
open Palette

namespace Table

variable {table : Table}

theorem compileType_base (c : Compiled) {key : String} (hk : key = table.base.key) :
    table.compileType c key = { c with
      types := c.types.put key
        (typeDocument table.base.document table.base.tree.layout.showItem none) } := by
  rw [compileType, if_pos hk]

theorem compileType_none (c : Compiled) {key : String} (hk : key ≠ table.base.key)
    (ht : table.types.get? key = none) : table.compileType c key = c := by
  rw [compileType, if_neg hk, ht]

/-- The base leaves everything but the documents of the types as it is, and so does a missing type. -/
theorem compileType_skip (c : Compiled) {key : String} (ht : table.types.get? key = none) :
    ∃ types, table.compileType c key = { c with types } := by
  by_cases hk : key = table.base.key
  · exact ⟨_, compileType_base c hk⟩
  · exact ⟨c.types, compileType_none c hk ht⟩

/-- The palettes of a type, folded into those that are compiled so far. -/
def foldOf (table : Table) (c : Compiled) (key : String) (ty : TableType) : Palette.Fold :=
  Palette.fold table.options.canonicalPalettes key c.palettes ty.tree.layout.palettes
    ty.tree.layout.showItem

/-- The columns of a type, reduced to what is compiled so far. -/
def reductionOf (table : Table) (c : Compiled) (ty : TableType) : Column.Reduction :=
  Column.reduce table.isReal c.columns (ty.allColumns c.columns)

theorem compileType_derived (c : Compiled) {key : String} (hk : key ≠ table.base.key)
    (ht : table.types.get? key = some ty) : table.compileType c key =
      { columns := (table.reductionOf c ty).base
        palettes := (table.foldOf c key ty).shared
        formerNames := (table.foldOf c key ty).renamed.foldl (fun m e => m.put e.2 e.1) c.formerNames
        types := c.types.put key (typeDocument ty.document (table.foldOf c key ty).showItem
          (some (table.reductionOf c ty).overrides)) } := by
  rw [compileType, if_neg hk, ht]
  rfl

/-- The outcome of compiling the base and some types. -/
def compiled (table : Table) (keys : List String) : Compiled :=
  keys.foldl table.compileType
    ⟨table.baseColumns, table.palettes.extend table.base.tree.layout.palettes, [], []⟩

theorem compiled_concat (table : Table) (keys : List String) (key : String) :
    table.compiled (keys ++ [key]) = table.compileType (table.compiled keys) key := by
  rw [compiled, List.foldl_append]
  rfl

/-- What is compiled when it is a type's turn. -/
def before (table : Table) (key : String) : Compiled :=
  table.compiled (table.typeOrder.takeWhile (· ≠ key))

theorem before_eq {table : Table} {key : String} (h : table.typeOrder.Nodup)
    (he : keys ++ key :: more = table.typeOrder) : table.before key = table.compiled keys := by
  rw [← he, List.nodup_append] at h
  rw [before, ← he, List.takeWhile_append_of_pos, List.takeWhile_cons_of_neg, List.append_nil]
  · simp
  · intro k hk
    exact decide_eq_true (h.2.2 k hk key List.mem_cons_self)

/-- What compiling the types one after the other comes to. -/
theorem compiled_induction {table : Table} {P : List String → Compiled → Prop}
    (h : table.typeOrder.Nodup) (hstart : P [] (table.compiled []))
    (hstep : ∀ keys key, key ∈ table.typeOrder → key ∉ keys →
      table.before key = table.compiled keys → P keys (table.compiled keys) →
      P (keys ++ [key]) (table.compileType (table.compiled keys) key)) :
    P table.typeOrder table.compileTypes := by
  suffices hall : ∀ keys more, keys ++ more = table.typeOrder → P keys (table.compiled keys) from
    hall table.typeOrder [] (List.append_nil _)
  intro keys
  induction keys using List.reverseRecOn with
  | nil => exact fun _ _ => hstart
  | append_singleton init key ih =>
    intro more he
    rw [List.append_assoc, List.singleton_append] at he
    have hd := h
    rw [← he, List.nodup_append] at hd
    have hmem : key ∈ table.typeOrder := by
      rw [← he]
      exact List.mem_append_right init List.mem_cons_self
    have hnew : key ∉ init := fun hm => hd.2.2 key hm key List.mem_cons_self rfl
    rw [compiled_concat]
    exact hstep init key hmem hnew (before_eq h he) (ih _ he)

/-- The compiled document of a type. -/
def compiledType? (table : Table) (key : String) : Option Value :=
  if key = table.base.key then
    some (typeDocument table.base.document table.base.tree.layout.showItem none)
  else
    (table.types.get? key).map fun ty =>
      typeDocument ty.document (table.foldOf (table.before key) key ty).showItem
        (some (table.reductionOf (table.before key) ty).overrides)

theorem get?_types_compileTypes {table : Table} (h : table.typeOrder.Nodup) (key : String) :
    table.compileTypes.types.get? key =
      if key ∈ table.typeOrder then table.compiledType? key else none := by
  revert key
  apply compiled_induction h (P := fun keys c => ∀ key, c.types.get? key =
    if key ∈ keys then table.compiledType? key else none)
  · intro key
    rfl
  · intro keys key _ hnew hbefore ih x
    have hput {v} (hv : table.compiledType? key = some v) :
        ((table.compiled keys).types.put key v).get? x =
          if x ∈ keys ++ [key] then table.compiledType? x else none := by
      rw [Entries.get?_put, ih]
      by_cases hx : x = key
      · rw [if_pos hx, hx, if_pos (by simp), hv]
      · simp [hx]
    by_cases hk : key = table.base.key
    · rw [compileType_base _ hk]
      exact hput (if_pos hk)
    · cases ht : table.types.get? key with
      | none =>
        have hnone : table.compiledType? key = none := by
          rw [compiledType?, if_neg hk, ht, Option.map_none]
        rw [compileType_none _ hk ht, ih]
        by_cases hx : x = key
        · rw [hx, if_neg hnew, if_pos (by simp), hnone]
        · simp [hx]
      | some ty =>
        rw [compileType_derived _ hk ht]
        apply hput
        rw [compiledType?, if_neg hk, ht, Option.map_some, hbefore]

theorem exists_compiledType? (h : table.compiledType? key = some v) : ∃ m, v = .object m := by
  rw [compiledType?] at h
  split at h
  · rw [← Option.some.inj h]
    exact exists_typeDocument _ _ _
  · obtain ⟨ty, _, rfl⟩ := Option.map_eq_some_iff.1 h
    exact exists_typeDocument _ _ _

namespace Ordered

theorem ne_base (h : table.Ordered) (ht : table.types.get? key = some ty) :
    key ≠ table.base.key := by
  rintro rfl
  cases h.base_free.symm.trans ht

theorem names_types (h : table.Ordered) : table.compileTypes.types.names = table.typeOrder := by
  apply compiled_induction h.order (P := fun keys c => c.types.names = keys)
  · rfl
  · intro keys key hmem hnew _ ih
    have hput (v : Value) : ((table.compiled keys).types.put key v).names = keys ++ [key] := by
      rw [Entries.names_put_of_not_mem (by rw [ih]; exact hnew), ih]
    by_cases hk : key = table.base.key
    · rw [compileType_base _ hk]
      exact hput _
    · obtain ⟨ty, hty⟩ := h.typed hmem
      rw [compileType_derived _ hk ((type?_of_ne hk).symm.trans hty)]
      exact hput _

theorem distinct_types (h : table.Ordered) : table.compileTypes.types.Distinct := by
  rw [Entries.Distinct, h.names_types]
  exact h.order

theorem object_of_mem_types (h : table.Ordered) :
    ∀ e ∈ table.compileTypes.types, e.2.fields?.isSome = true := by
  intro e he
  have hget := Entries.get?_of_mem h.distinct_types he
  rw [get?_types_compileTypes h.order] at hget
  split at hget
  · obtain ⟨m, hm⟩ := exists_compiledType? hget
    rw [hm]
    rfl
  · cases hget

theorem documentOf_types (h : table.Ordered) (hk : key ≠ table.base.key)
    (ht : table.types.get? key = some ty) : documentOf table.compileTypes.types key =
      (typeDocument ty.document (table.foldOf (table.before key) key ty).showItem
        (some (table.reductionOf (table.before key) ty).overrides)).fields?.getD [] := by
  rw [documentOf, get?_types_compileTypes h.order, if_pos (h.type_mem ht), compiledType?, if_neg hk,
    ht]
  rfl

theorem documentOf_base (h : table.Ordered) : documentOf table.compileTypes.types table.base.key =
    (typeDocument table.base.document table.base.tree.layout.showItem none).fields?.getD [] := by
  rw [documentOf, get?_types_compileTypes h.order, if_pos h.base_mem, compiledType?, if_pos rfl]
  rfl

theorem overridesIn_compile (h : table.Ordered) (ht : table.types.get? key = some ty) :
    overridesIn table.compile key =
      (table.reductionOf (table.before key) ty).overrides.map fun e => (e.1, .object e.2) := by
  rw [overridesIn, partOf_compile_types, h.documentOf_types (h.ne_base ht) ht]
  exact fields?_columnsOverrides _ _ _

end Ordered

end Table

end FormLayout
