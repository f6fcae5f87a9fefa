import FormLayout.Proofs.Definitions
import FormLayout.Proofs.Table.Closed
import FormLayout.Proofs.Table.Woven
/-!
Removing a field from a table: no part of the table holds it afterwards, everything else stays, and
the compiled document does not mention it any more, apart from palettes that no type shows.
-/

namespace FormLayout
set_option autoImplicit true
open Palette Value

namespace Palette

variable {known : List String} {canonical : Bool} {typeKey : String} {start shared : Palettes}

/-- Each of the shared palettes has known fields only, or is one of the start, as it was there. -/
def Accounted (known : List String) (start shared : Palettes) : Prop :=
  ∀ name layout, shared.get? name = some layout →
    ShowItem.Names known layout ∨ start.get? name = some layout

theorem Accounted.stored (h : Accounted known start shared) (canonical : Bool) {name layout : String}
    (hl : ShowItem.Names known layout) :
    Accounted known start (stored canonical shared name layout) := by
  intro x l hx
  rw [Palette.stored] at hx
  split at hx
  · exact h x l hx
  · rw [Entries.get?_put] at hx
    split at hx
    · rw [← Option.some.inj hx]
      exact .inl hl
    · exact h x l hx

theorem Accounted.addAll {own : Palettes} (hown : ∀ e ∈ own, ShowItem.Names known e.2) {f : Fold}
    (h : Accounted known start f.shared) :
    Accounted known start (addAll canonical typeKey f own).shared := by
  induction own using List.reverseRecOn with
  | nil => exact h
  | append_singleton init last ih =>
    have hlast := hown last (List.mem_append_right _ (List.mem_singleton_self last))
    have hinit := ih fun e he => hown e (List.mem_append_left _ he)
    rw [addAll_concat]
    rcases add_cases canonical typeKey (Palette.addAll canonical typeKey f init) last.1 last.2 with
      ⟨_, ha⟩ | ⟨_, ha⟩ <;> rw [ha]
    · exact hinit.stored canonical hlast
    · exact hinit.stored canonical hlast

end Palette

/-- A type after a field was dropped from it. -/
structure TableType.Without (id : String) (ty ty' : TableType) : Prop where
  key : ty'.key = ty.key
  document : ty'.document = ty.document
  tree : ty.tree.Dropped id ty'.tree
  columns (x : String) : ty'.columns.get? x = if x = id then none else ty.columns.get? x
  memory (x : String) : ty'.memory.get? x = if x = id then none else ty.memory.get? x

theorem TableType.Woven.without {ty : TableType} (h : ty.Woven) (id : String) :
    ty.Without id (ty.dropField id).1 := by
  obtain ⟨loose, hj⟩ := h
  exact ⟨rfl, rfl, hj.dropped id, Entries.get?_erase ty.columns id, Entries.get?_erase ty.memory id⟩

/-- No part of a type holds a field. -/
structure TableType.Lacks (id : String) (ty : TableType) : Prop where
  tree : ty.tree.field? id = none
  columns : ty.columns.get? id = none
  memory : ty.memory.get? id = none

theorem TableType.Without.lacks {id : String} {ty ty' : TableType} (h : ty.Without id ty') :
    ty'.Lacks id :=
  ⟨h.tree.field?_eq_none, (h.columns id).trans (if_pos rfl), (h.memory id).trans (if_pos rfl)⟩

theorem TableType.Lacks.dropField_eq {id : String} {ty : TableType} (h : ty.Lacks id) :
    ty.dropField id = (ty, false) := by
  rw [dropField, FormTree.dropField_of_none h.tree, Entries.has, h.columns]
  dsimp only
  rw [Entries.erase_eq_self h.columns, Entries.erase_eq_self h.memory]
  rfl

namespace Table

variable {start table table' : Table} {id : String}

/-- A table after a field was removed from it. -/
structure Without (table : Table) (id : String) (table' : Table) : Prop extends
    Kept table table' where
  name : table'.name = table.name
  columns (x : String) : table'.columns.get? x = if x = id then none else table.columns.get? x
  base : table.base.tree.Dropped id table'.base.tree
  types (key : String) : Option.Rel (TableType.Without id) (table.types.get? key)
    (table'.types.get? key)

/-- No part of a table holds a field. -/
structure Lacks (table : Table) (id : String) : Prop where
  columns : table.columns.get? id = none
  base : table.base.tree.field? id = none
  types {e : String × TableType} : e ∈ table.types → e.2.Lacks id

theorem Woven.without (h : table.Woven) (definitions : Definitions) (id : String) :
    table.Without id (table.removeField definitions id).1 := by
  obtain ⟨loose, hj⟩ := h.joined
  have hkept := (Kept.refl table).run (.removeField definitions id)
  rw [Table.run] at hkept
  rw [removeField_eq] at hkept ⊢
  constructor
  case toKept => exact hkept
  case name => rfl
  case columns => exact Entries.get?_erase table.columns id
  case base => exact hj.dropped id
  case types =>
    intro key
    have hmap := Entries.get?_map table.types (fun ty => (ty.dropField id).1) key
    dsimp only
    rw [hmap]
    cases ht : table.types.get? key with
    | none => exact .none
    | some ty => exact .some ((h.types (Entries.mem_of_get? ht)).without id)

theorem Woven.lacks (h : table.Woven) (definitions : Definitions) (id : String) :
    (table.removeField definitions id).1.Lacks id := by
  obtain ⟨loose, hj⟩ := h.joined
  rw [removeField_eq]
  constructor
  case columns => exact Entries.get?_erase_self table.columns id
  case base => exact (hj.dropped id).field?_eq_none
  case types =>
    intro e he
    obtain ⟨e, hm, rfl⟩ := List.mem_map.1 he
    exact ((h.types hm).without id).lacks

/-- Removing a field that nothing holds changes nothing in the table. -/
theorem Lacks.removeField_eq (h : table.Lacks id) (definitions : Definitions) :
    table.removeField definitions id = (table, definitions.undefine table.name id, false) := by
  have htypes : table.types.map (fun e => (e.1, e.2.dropField id)) =
      table.types.map fun e => (e.1, (e.2, false)) :=
    List.map_congr_left fun e he => by rw [(h.types he).dropField_eq]
  have hany : (table.types.map fun e => (e.1, (e.2, false))).any (fun e => e.2.2) = false := by
    simp
  have hmap : (table.types.map fun e => (e.1, (e.2, false))).map (fun e => (e.1, e.2.1)) =
      table.types := by
    rw [List.map_map]
    exact List.map_id _
  rw [removeField, FormTree.dropField_of_none h.base, htypes]
  dsimp only
  rw [hany, hmap, Entries.has, h.columns, Entries.erase_eq_self h.columns]
  rfl

/-- The answer says whether the field was anywhere in the table. -/
theorem found_removeField (table : Table) (definitions : Definitions) (id : String) :
    (table.removeField definitions id).2.2 = true ↔ table.columns.has id = true ∨
      (table.base.tree.field? id).isSome = true ∨ ∃ e ∈ table.types,
        (e.2.tree.field? id).isSome = true ∨ e.2.columns.has id = true := by
  have hfound : (table.removeField definitions id).2.2 =
      (table.columns.has id || (table.base.tree.dropField id).2 ||
        (table.types.map fun e => (e.1, e.2.dropField id)).any fun e => e.2.2) := rfl
  have hdrop (ty : TableType) : (ty.dropField id).2 =
      ((ty.tree.dropField id).2 || ty.columns.has id) := rfl
  rw [hfound, Bool.or_eq_true, Bool.or_eq_true, List.any_map, List.any_eq_true, or_assoc,
    FormTree.snd_dropField]
  simp only [Function.comp_apply, hdrop, FormTree.snd_dropField, Bool.or_eq_true]

namespace Woven

theorem get?_compiled_of_lacks (h : table.Woven) (hl : table.Lacks id) (keys : List String) :
    (table.compiled keys).columns.get? id = none := by
  induction keys using List.reverseRecOn with
  | nil =>
    obtain ⟨loose, hj⟩ := h.joined
    have hbase := get?_baseColumns hj id
    rw [baseConfig?, FormLayout.baseConfig?, hl.base, hl.columns] at hbase
    exact hbase
  | append_singleton init key ih =>
    rw [compiled_concat]
    cases ht : table.types.get? key with
    | none =>
      obtain ⟨types, he⟩ := compileType_skip (table.compiled init) ht
      rw [he]
      exact ih
    | some ty =>
      have hm := Entries.mem_of_get? ht
      obtain ⟨loose, hj⟩ := h.types hm
      have hown : (ty.allColumns (table.compiled init).columns).get? id = none := by
        rw [TableType.get?_allColumns hj, (hl.types hm).tree, (hl.types hm).columns]
        rfl
      rw [compileType_derived _ (h.ne_base ht) ht]
      dsimp only
      rw [((h.stage init).reduces h.toGrounded ty).get?_base, ih, hown]
      rfl

theorem not_mem_columns (h : table.Woven) (hl : table.Lacks id) :
    id ∉ table.compileTypes.columns.names := by
  intro hm
  obtain ⟨config, hconfig⟩ := Entries.mem_names_iff.1 hm
  have hnone : table.compileTypes.columns.get? id = none := h.get?_compiled_of_lacks hl _
  cases hnone.symm.trans hconfig

theorem not_mem_overrides (h : table.Woven) (hl : table.Lacks id) (hk : key ≠ table.base.key) :
    id ∉ (overridesIn table.compile key).names := by
  intro hm
  obtain ⟨v, hv⟩ := Entries.mem_names_iff.1 hm
  cases ht : table.types.get? key with
  | none =>
    have hnone : overridesIn table.compile key = [] := by
      rw [overridesIn, partOf_compile_types, documentOf, get?_types_compileTypes h.order,
        compiledType?, if_neg hk, ht]
      split <;> rfl
    rw [hnone] at hv
    cases hv
  | some ty =>
    rw [h.overridesIn_compile ht, Entries.get?_map,
      ((h.stage_before key).reduces h.toGrounded ty).get?_overrides, before,
      h.get?_compiled_of_lacks hl] at hv
    cases hv

end Woven

/-- A compiled palette has only fields that the document has columns for, unless it is one that the
table stores. -/
theorem Opened.accounted (h : table.Opened) :
    Accounted table.compileTypes.columns.names table.palettes table.compileTypes.palettes := by
  apply compiled_induction h.sound.order (P := fun _ c =>
    Accounted table.compileTypes.columns.names table.palettes c.palettes)
  · intro name layout hget
    have hstart : (table.palettes.extend table.base.tree.layout.palettes).get? name = some layout :=
      hget
    rw [Entries.get?_extend, Option.or_eq_some_iff] at hstart
    rcases hstart with hbase | ⟨_, hkept⟩
    · exact .inl (h.names_palettes (type?_base table) _
        (Entries.mem_of_mem_ofList (Entries.mem_of_get? hbase)))
    · exact .inr hkept
  · intro keys key _ _ _ ih
    cases ht : table.types.get? key with
    | none =>
      obtain ⟨types, he⟩ := compileType_skip (table.compiled keys) ht
      rw [he]
      exact ih
    | some ty =>
      have hk := h.sound.ne_base ht
      rw [compileType_derived _ hk ht]
      exact ih.addAll (h.names_palettes ((type?_of_ne hk).trans ht))

/-- No layout of a compiled table shows a field. A palette that no type shows may still name it, if
it is one that the table stores. -/
structure Unmentioned (table : Table) (id : String) : Prop where
  showItem {key : String} {item : Item} : key ∈ (partOf table.compile "types").names →
    item ∈ ShowItem.parse (Layout.ofDocument table.compile key).showItem → item.kind ≠ .field id
  inside {key name layout : String} {item inner : Item} :
    key ∈ (partOf table.compile "types").names →
    item ∈ ShowItem.parse (Layout.ofDocument table.compile key).showItem →
    item.reference? = some name →
    (palettesOf (partOf table.compile "palettes")).get? name = some layout →
    inner ∈ ShowItem.parse layout → id ≠ "" → inner.kind ≠ .field id
  palette {name layout : String} {inner : Item} :
    (palettesOf (partOf table.compile "palettes")).get? name = some layout →
    inner ∈ ShowItem.parse layout → id ≠ "" → inner.kind = .field id →
    table.palettes.get? name = some layout

theorem Opened.unmentioned (h : table.Opened) (hid : id ∉ table.compileTypes.columns.names) :
    table.Unmentioned id := by
  have hclosed {key : String} (hm : key ∈ (partOf table.compile "types").names) :
      (Layout.ofDocument table.compile key).Closed table.compileTypes.columns.names := by
    rw [partOf_compile_types, h.sound.names_types] at hm
    obtain ⟨ty, hty⟩ := h.sound.typed hm
    rw [← names_compile_columns]
    exact h.closed_layout hty
  constructor
  case showItem => exact fun hm hi hk => hid ((hclosed hm).field hi hk)
  case inside =>
    intro key name layout item inner hm hi hr hget hinner hne hk
    exact hid ((hclosed hm).inside hi hr hget hinner hk hne)
  case palette =>
    intro name layout inner hget hinner hne hk
    rw [palettesOf_compile] at hget
    apply (h.accounted name layout hget).resolve_left
    intro hnames
    exact hid (hnames inner hinner id hk hne)

/-- What removing a field comes to: the table lacks it and is otherwise as before, and so are the
definitions; the field was found where any part held it, and removing it again does nothing. -/
structure Removed (table : Table) (definitions : Definitions) (id : String)
    (removed : Table × Definitions × Bool) : Prop where
  lacks : removed.1.Lacks id
  without : table.Without id removed.1
  definition? (t x : String) : removed.2.1.definition? t x =
    if t = table.name ∧ x = id then none else definitions.definition? t x
  found : removed.2.2 = true ↔ table.columns.has id = true ∨
    (table.base.tree.field? id).isSome = true ∨
    ∃ e ∈ table.types, (e.2.tree.field? id).isSome = true ∨ e.2.columns.has id = true
  again : removed.1.removeField removed.2.1 id = (removed.1, removed.2.1, false)
  columns : id ∉ (partOf removed.1.compile "columns").names
  overrides {key : String} : key ≠ table.base.key → id ∉ (overridesIn removed.1.compile key).names

theorem Woven.removed (h : table.Woven) (definitions : Definitions) (id : String) :
    Removed table definitions id (table.removeField definitions id) := by
  have hlacks := h.lacks definitions id
  have hwithout := h.without definitions id
  have hwoven : (table.removeField definitions id).1.Woven := h.run (.removeField definitions id)
  have hdefinitions : (table.removeField definitions id).2.1 =
      definitions.undefine table.name id := rfl
  constructor
  case lacks => exact hlacks
  case without => exact hwithout
  case definition? => exact Definitions.definition?_undefine definitions table.name id
  case found => exact found_removeField table definitions id
  case again =>
    rw [hlacks.removeField_eq, hdefinitions, hwithout.name, Definitions.undefine_undefine]
  case columns =>
    rw [names_compile_columns]
    exact hwoven.not_mem_columns hlacks
  case overrides =>
    intro key hk
    rw [← hwithout.base_key] at hk
    exact hwoven.not_mem_overrides hlacks hk

/-- Removing a field from a table that was loaded and edited. The layouts do not show it any more
either, where the texts that were put in are plain. -/
theorem removed_runAll {name : String} {value : Value} {options : Options} (hv : value.Proper)
    (hread : Table.read name value options = .ok start) (edits : List TableEdit)
    (definitions : Definitions) (id : String) :
    Removed (start.runAll edits) definitions id ((start.runAll edits).removeField definitions id) ∧
      (Text.Plain options.defaultTabLabel → (∀ key ∈ start.typeOrder, Text.Plain key) →
        (∀ e ∈ edits, e.Plain) →
        ((start.runAll edits).removeField definitions id).1.Unmentioned id) := by
  have hremoved := ((woven_of_read hv hread).runAll edits).removed definitions id
  apply And.intro hremoved
  intro hl hkeys he
  have hopened : (start.runAll edits).Opened :=
    runAll_induction (.read hv hl hread hkeys) fun table e hm h => h.run (he e hm)
  apply (Opened.removeField definitions id hopened).unmentioned
  rw [← names_compile_columns]
  exact hremoved.columns

/-- A document where a field stands in the base, in a palette of another type, in a palette of none,
and in the overrides of both types. -/
def heldField : Value := .object [
  ("columns", .object [("a", .object []), ("f", .object [])]),
  ("palettes", .object [("p", .object [("showitem", .string "f,a")]),
    ("u", .object [("showitem", .string "f")])]),
  ("types", .object [
    ("0", .object [("showitem", .string "a,f"),
      ("columnsOverrides", .object [("f", .object [("label", .string "F")])])]),
    ("1", .object [("showitem", .string "--palette--;;p"),
      ("columnsOverrides", .object [("f", .object [("label", .string "G")])])])])]

theorem removed_of_heldField : ∃ start : Table,
    Table.read "pages" heldField ⟨"general", none, true⟩ = .ok start ∧
    (∀ key ∈ start.typeOrder, Text.Plain key) ∧
    ((start.runAll [.field "1" "b" []]).removeField [] "f").2.2 = true ∧
    Removed (start.runAll [.field "1" "b" []]) [] "f"
      ((start.runAll [.field "1" "b" []]).removeField [] "f") ∧
    ((start.runAll [.field "1" "b" []]).removeField [] "f").1.Unmentioned "f" := by
  obtain ⟨start, hread, h⟩ := exists_of_check
    (x := Table.read "pages" heldField ⟨"general", none, true⟩)
    (p := fun start : Table => decide (∀ key ∈ start.typeOrder, Text.Plain key) &&
      ((start.runAll [.field "1" "b" []]).removeField [] "f").2.2) (by decide +kernel)
  rw [Bool.and_eq_true, decide_eq_true_iff] at h
  have hproper : heldField.Proper := by
    simp [heldField, proper_object_iff, Entries.Distinct, Entries.names, Proper.string]
  have hremoved := removed_runAll hproper hread [.field "1" "b" []] [] "f"
  refine ⟨start, hread, h.1, h.2, hremoved.1, hremoved.2 (by decide +kernel) h.1 ?_⟩
  intro e he
  rw [List.mem_singleton.1 he]
  exact ⟨by decide +kernel, fun _ hn => absurd hn List.not_mem_nil⟩

/-- A document with a type whose key has separators. -/
def separatedKey : Value := .object [
  ("columns", .object [("a", .object []), ("f", .object [])]),
  ("palettes", .object [("p", .object [("showitem", .string "f,a")])]),
  ("types", .object [
    ("0", .object [("showitem", .string "a")]),
    ("1,f,2", .object [("showitem", .string "--palette--;;p")])])]

/-- What is stored stays: the overrides of the base type, and palettes that no type shows. Separators
in the default label or in a key make items of their own, and so does a blank part in a palette. -/
theorem field_left_of_heldField :
    (∃ table : Table, Table.read "pages" heldField ⟨"general", none, true⟩ = .ok table ∧
      "f" ∈ (overridesIn (table.removeField [] "f").1.compile table.base.key).names ∧
      (palettesOf (partOf (table.removeField [] "f").1.compile "palettes")).get? "u" = some "f" ∧
      ["f"] ∈ ShowItem.parse "f" ∧ Item.kind ["f"] = .field "f") ∧
    (∃ table : Table, Table.read "pages" heldField ⟨"x,f", none, true⟩ = .ok table ∧
      ["f"] ∈ ShowItem.parse
        (Layout.ofDocument (table.removeField [] "f").1.compile "0").showItem) ∧
    (∃ table : Table, Table.read "pages" separatedKey ⟨"general", none, true⟩ = .ok table ∧
      ["f"] ∈ ShowItem.parse
        (Layout.ofDocument (table.removeField [] "f").1.compile "1,f,2").showItem) ∧
    ∃ table : Table, Table.read "pages" blankItem ⟨"general", none, true⟩ = .ok table ∧
      ["--palette--", "", "p"] ∈ ShowItem.parse
        (Layout.ofDocument (table.removeField [] "").1.compile "1").showItem ∧
      (palettesOf (partOf (table.removeField [] "").1.compile "palettes")).get? "p" = some ";;" ∧
      ["", "", ""] ∈ ShowItem.parse ";;" ∧ Item.kind ["", "", ""] = .field "" := by
  apply And.intro _ (And.intro _ (And.intro _ _))
  · obtain ⟨table, hread, h⟩ := exists_of_check
      (x := Table.read "pages" heldField ⟨"general", none, true⟩)
      (p := fun table : Table => decide (
        "f" ∈ (overridesIn (table.removeField [] "f").1.compile table.base.key).names ∧
        (palettesOf (partOf (table.removeField [] "f").1.compile "palettes")).get? "u" = some "f" ∧
        ["f"] ∈ ShowItem.parse "f" ∧ Item.kind ["f"] = .field "f")) (by decide +kernel)
    exact ⟨table, hread, of_decide_eq_true h⟩
  · obtain ⟨table, hread, h⟩ := exists_of_check
      (x := Table.read "pages" heldField ⟨"x,f", none, true⟩)
      (p := fun table : Table => decide (["f"] ∈ ShowItem.parse
        (Layout.ofDocument (table.removeField [] "f").1.compile "0").showItem)) (by decide +kernel)
    exact ⟨table, hread, of_decide_eq_true h⟩
  · obtain ⟨table, hread, h⟩ := exists_of_check
      (x := Table.read "pages" separatedKey ⟨"general", none, true⟩)
      (p := fun table : Table => decide (["f"] ∈ ShowItem.parse
        (Layout.ofDocument (table.removeField [] "f").1.compile "1,f,2").showItem))
      (by decide +kernel)
    exact ⟨table, hread, of_decide_eq_true h⟩
  · obtain ⟨table, hread, h⟩ := exists_of_check
      (x := Table.read "pages" blankItem ⟨"general", none, true⟩)
      (p := fun table : Table => decide (["--palette--", "", "p"] ∈ ShowItem.parse
          (Layout.ofDocument (table.removeField [] "").1.compile "1").showItem ∧
        (palettesOf (partOf (table.removeField [] "").1.compile "palettes")).get? "p" = some ";;" ∧
        ["", "", ""] ∈ ShowItem.parse ";;" ∧ Item.kind ["", "", ""] = .field ""))
      (by decide +kernel)
    exact ⟨table, hread, of_decide_eq_true h⟩

end Table

end FormLayout
