import FormLayout.Proofs.Column.Congruence
import FormLayout.Proofs.Table.Tidy
/-!
Tables that compile to equal documents, except for the show items of some types. It is enough that the
types have the same palettes, and columns with the same effect on those of the base.
-/

namespace FormLayout
set_option autoImplicit true
open Palette Value

/-- The document of a type without its show item. -/
def Value.withoutShowItem : Value → Value
  | .object document => .object (Entries.erase document "showitem")
  | v => v

/-- A document without the show items of some types. -/
def Value.withoutShowItems (keys : List String) : Value → Value
  | .object document => .object <| Entries.update document "types" fun
    | .object types => .object <| types.map fun e =>
      (e.1, if e.1 ∈ keys then e.2.withoutShowItem else e.2)
    | v => v
  | v => v

theorem Value.withoutShowItems_nil (v : Value) : v.withoutShowItems [] = v := by
  cases v with
  | object document =>
    rw [withoutShowItems]
    apply congrArg Value.object
    apply (List.map_congr_left _).trans (List.map_id _)
    rintro ⟨name, part⟩ _
    split
    · cases part with
      | object types => simp
      | _ => rfl
    · rfl
  | _ => rfl

/-- Two versions of a type's columns, over columns of the base: where the base has none they are the
same, and elsewhere they have equal overrides. -/
structure Column.Agree (base columns columns' : Columns) : Prop where
  fresh {id : String} : base.get? id = none → columns'.get? id = columns.get? id
  known {id : String} {known : Fields} : base.get? id = some known →
    Option.Rel (fun x y => equal (.object x) (.object y) = true)
      ((columns'.get? id).bind (override? known)) ((columns.get? id).bind (override? known))

namespace Column

variable {base columns columns' : Columns}

theorem rel_override?_of_eq {id : String} (hc : Proper (.ofFields columns))
    (h : columns'.get? id = columns.get? id) (known : Fields) :
    Option.Rel (fun x y => equal (.object x) (.object y) = true)
      ((columns'.get? id).bind (override? known)) ((columns.get? id).bind (override? known)) := by
  rw [h]
  cases ho : (columns.get? id).bind (override? known) with
  | none => exact .none
  | some change =>
    obtain ⟨config, hconfig, hchange⟩ := Option.bind_eq_some_iff.1 ho
    exact .some (equal_refl (proper_override? ((proper_ofFields_iff.1 hc).2 id config hconfig) hchange))

theorem Agree.refl (hc : Proper (.ofFields columns)) : Agree base columns columns :=
  ⟨fun _ => rfl, fun _ => rel_override?_of_eq hc rfl _⟩

end Column

namespace Palette

/-- What palettes are folded into does not depend on the show item. -/
theorem shared_addAll (canonical : Bool) (typeKey : String) (start : Palettes) (s s' : String)
    (own : Palettes) :
    (addAll canonical typeKey ⟨start, s', []⟩ own).shared =
        (addAll canonical typeKey ⟨start, s, []⟩ own).shared ∧
      (addAll canonical typeKey ⟨start, s', []⟩ own).renamed =
        (addAll canonical typeKey ⟨start, s, []⟩ own).renamed := by
  induction own using List.reverseRecOn with
  | nil => exact ⟨rfl, rfl⟩
  | append_singleton init last ih =>
    obtain ⟨hshared, hrenamed⟩ := ih
    rw [addAll_concat, addAll_concat, Fold.add, Fold.add, hshared]
    split
    · exact ⟨hshared, hrenamed⟩
    · split
      · exact ⟨rfl, hrenamed⟩
      · exact ⟨rfl, congrArg (· ++ _) hrenamed⟩

end Palette

namespace TableType

variable {ty : TableType}

/-- The configurations of a type depend on the columns of the base only by what is looked up there. -/
theorem get?_allColumns_congr (hj : ty.tree.Joined loose) {base base' : Columns}
    (h : ∀ id, base'.get? id = base.get? id) (id : String) :
    (ty.allColumns base').get? id = (ty.allColumns base).get? id := by
  rw [get?_allColumns hj, get?_allColumns hj, h]

end TableType

namespace Table

variable {table table' : Table} {key : String} {ty ty' : TableType}

/-- Two versions of a type that add the same to what is compiled. -/
structure AlikeType (table : Table) (ty ty' : TableType) : Prop where
  palettes : ty'.tree.layout.palettes = ty.tree.layout.palettes
  columns (keys : List String) : Column.Agree (table.compiled keys).columns
    (ty.allColumns (table.compiled keys).columns) (ty'.allColumns (table.compiled keys).columns)

/-- Two versions of a table with the same base, and types that add the same to it. -/
structure Alike (table table' : Table) : Prop extends Kept table table' where
  base : table'.base.tree = table.base.tree
  columns : table'.columns = table.columns
  types (key : String) : Option.Rel (table.AlikeType) (table.types.get? key)
    (table'.types.get? key)

/-- The same columns, in any order, and the same palettes. -/
structure Compiled.Same (c c' : Compiled) : Prop where
  columns (id : String) : c'.columns.get? id = c.columns.get? id
  palettes : c'.palettes = c.palettes
  formerNames : c'.formerNames = c.formerNames

namespace Alike

variable {c c' : Compiled}

theorem exists_type (h : table.Alike table') (ht : table.types.get? key = some ty) :
    ∃ ty', table'.types.get? key = some ty' ∧ table.AlikeType ty ty' :=
  exists_of_rel (ht ▸ h.types key)

theorem agree (h : table.AlikeType ty ty') (ht' : ty'.Tidy) {keys : List String}
    (hs : (table.compiled keys).Same c') : Column.Agree (table.compiled keys).columns
      (ty.allColumns (table.compiled keys).columns) (ty'.allColumns c'.columns) := by
  obtain ⟨loose, hj⟩ := ht'.woven
  have hsame := TableType.get?_allColumns_congr hj hs.columns
  constructor
  case fresh =>
    intro id hnone
    rw [hsame, (h.columns keys).fresh hnone]
  case known =>
    intro id known hknown
    rw [hsame]
    exact (h.columns keys).known hknown

theorem foldOf_same (h : table.Alike table') (hs : c.Same c') (ht : table.AlikeType ty ty')
    (key : String) :
    (table'.foldOf c' key ty').shared = (table.foldOf c key ty).shared ∧
      (table'.foldOf c' key ty').renamed = (table.foldOf c key ty).renamed := by
  rw [foldOf, foldOf, hs.palettes, h.options, ht.palettes]
  exact shared_addAll _ _ _ _ _ _

theorem step (h : table.Alike table') (htidy : table.Tidy) (htidy' : table'.Tidy)
    {keys : List String} (hs : (table.compiled keys).Same c') (hc' : table'.Stage c')
    (key : String) :
    (table.compileType (table.compiled keys) key).Same (table'.compileType c' key) := by
  cases ht : table.types.get? key with
  | none =>
    have hnone := h.types key
    rw [ht] at hnone
    obtain ⟨types, he⟩ := compileType_skip (table.compiled keys) ht
    obtain ⟨types', he'⟩ := compileType_skip c' (eq_none_of_rel hnone)
    rw [he, he']
    exact ⟨hs.columns, hs.palettes, hs.formerNames⟩
  | some ty =>
    obtain ⟨ty', ht', halike⟩ := h.exists_type ht
    obtain ⟨hshared, hrenamed⟩ := h.foldOf_same hs halike key
    rw [compileType_derived _ (htidy.ne_base ht) ht, compileType_derived _ (htidy'.ne_base ht') ht',
      hshared, hrenamed]
    constructor
    case columns =>
      intro id
      rw [((htidy.stage keys).reduces htidy.toGrounded ty).get?_base,
        (hc'.reduces htidy'.toGrounded ty').get?_base, hs.columns]
      cases hx : (table.compiled keys).columns.get? id with
      | some known => rfl
      | none => rw [(agree halike (htidy'.types ht') hs).fresh hx]
    case palettes => rfl
    case formerNames => rw [hs.formerNames]

theorem same (h : table.Alike table') (htidy : table.Tidy) (htidy' : table'.Tidy)
    (keys : List String) : (table.compiled keys).Same (table'.compiled keys) := by
  induction keys using List.reverseRecOn with
  | nil =>
    constructor
    case columns =>
      intro id
      change table'.baseColumns.get? id = table.baseColumns.get? id
      rw [baseColumns, baseColumns, h.base, h.columns]
    case palettes =>
      change table'.palettes.extend _ = table.palettes.extend _
      rw [h.palettes, h.base]
    case formerNames => rfl
  | append_singleton init key ih =>
    rw [compiled_concat, compiled_concat]
    exact h.step htidy htidy' ih (htidy'.stage init) key

theorem same_before (h : table.Alike table') (htidy : table.Tidy) (htidy' : table'.Tidy)
    (key : String) : (table.before key).Same (table'.before key) := by
  rw [before, before, h.order]
  exact h.same htidy htidy' _

theorem equal_overrides (h : table.Alike table') (htidy : table.Tidy) (htidy' : table'.Tidy)
    (ht' : table'.types.get? key = some ty') (halike : table.AlikeType ty ty') :
    equal (.ofFields (table'.reductionOf (table'.before key) ty').overrides)
      (.ofFields (table.reductionOf (table.before key) ty).overrides) = true := by
  have hs := h.same_before htidy htidy' key
  have hr := (htidy.stage_before key).reduces htidy.toGrounded ty
  have hr' := (htidy'.stage_before key).reduces htidy'.toGrounded ty'
  apply (equal_ofFields_iff hr'.distinct_overrides hr.distinct_overrides).2
  intro id
  rw [hr.get?_overrides, hr'.get?_overrides, hs.columns]
  cases hx : (table.before key).columns.get? id with
  | none => exact .none
  | some known => exact (agree halike (htidy'.types ht') hs).known hx

end Alike

section Documents

variable {document : Fields} {showItem showItem' : String} {overrides overrides' : Columns}

theorem get?_palettes_withParts_congr (document : Fields) (columns columns' : Columns)
    (palettes types types' : Fields) :
    (withParts document columns' palettes types').get? "palettes" =
      (withParts document columns palettes types).get? "palettes" := by
  have hget (columns : Columns) (types : Fields) :
      (withParts document columns palettes types).get? "palettes" =
        if palettes.isEmpty && !document.has "palettes" then document.get? "palettes"
        else some (.object palettes) := by
    have hput : (document.put "columns" (.ofFields columns)).get? "palettes" =
        document.get? "palettes" := Entries.get?_put_of_ne _ _ (by decide)
    rw [withParts, Entries.get?_put_of_ne _ _ (by decide), Entries.has, hput, ← Entries.has]
    split
    · exact hput
    · exact Entries.get?_put_self _ _ _
  rw [hget, hget]

theorem typeDocument_object (document : Fields) (showItem : String) (overrides : Option Columns) :
    typeDocument document showItem overrides =
      .object ((typeDocument document showItem overrides).fields?.getD []) := by
  obtain ⟨m, hm⟩ := exists_typeDocument document showItem overrides
  rw [hm]
  rfl

/-- Type documents with equal overrides have equal parts beside their show items. -/
theorem rel_typeDocument (hd : Proper (.object document))
    (he : equal (.ofFields overrides') (.ofFields overrides) = true) {part : String}
    (hp : part = "showitem" → showItem' = showItem) :
    Option.Rel (fun x y => equal x y = true)
      (((typeDocument document showItem' (some overrides')).fields?.getD []).get? part)
      (((typeDocument document showItem (some overrides)).fields?.getD []).get? part) := by
  by_cases hshow : part = "showitem"
  · rw [hshow, get?_showItem_typeDocument, get?_showItem_typeDocument, hp hshow]
    exact .some (equal_refl (.string showItem))
  · by_cases hcolumns : part = "columnsOverrides"
    · have hnil := eq_nil_iff_of_equal he
      rw [List.map_eq_nil_iff, List.map_eq_nil_iff] at hnil
      rw [hcolumns, get?_columnsOverrides, get?_columnsOverrides]
      by_cases hempty : overrides = []
      · rw [if_pos hempty, if_pos (hnil.2 hempty)]
        exact .none
      · rw [if_neg hempty, if_neg fun h => hempty (hnil.1 h)]
        exact .some he
    · have hne : part ∉ ["showitem", "columnsOverrides"] := by simp [hshow, hcolumns]
      rw [get?_typeDocument_of_ne _ _ _ hne, get?_typeDocument_of_ne _ _ _ hne]
      cases hx : document.get? part with
      | none => exact .none
      | some x => exact .some (equal_refl (hd.get? hx))

variable (hd : Proper (.object document)) (ho : Proper (.ofFields overrides))
  (ho' : Proper (.ofFields overrides'))
  (he : equal (.ofFields overrides') (.ofFields overrides) = true)

include hd ho ho' he

theorem equal_typeDocument (showItem : String) :
    equal (typeDocument document showItem (some overrides'))
      (typeDocument document showItem (some overrides)) = true := by
  have hproper := proper_typeDocument hd showItem fun _ hw => Option.some.inj hw ▸ ho
  have hproper' := proper_typeDocument hd showItem fun _ hw => Option.some.inj hw ▸ ho'
  rw [typeDocument_object] at hproper hproper'
  rw [typeDocument_object, typeDocument_object document showItem (some overrides),
    equal_object_iff hproper'.distinct hproper.distinct]
  exact fun _ => rel_typeDocument hd he fun _ => rfl

theorem equal_withoutShowItem (showItem showItem' : String) :
    equal (typeDocument document showItem' (some overrides')).withoutShowItem
      (typeDocument document showItem (some overrides)).withoutShowItem = true := by
  have hproper := proper_typeDocument hd showItem fun _ hw => Option.some.inj hw ▸ ho
  have hproper' := proper_typeDocument hd showItem' fun _ hw => Option.some.inj hw ▸ ho'
  rw [typeDocument_object] at hproper hproper'
  rw [typeDocument_object, typeDocument_object document showItem (some overrides),
    withoutShowItem, withoutShowItem,
    equal_object_iff (hproper'.distinct.erase _) (hproper.distinct.erase _)]
  intro part
  rw [Entries.get?_erase, Entries.get?_erase]
  split
  · exact .none
  · next hne => exact rel_typeDocument hd he fun h => absurd h hne

end Documents

namespace Alike

variable {keys : List String}

/-- The document of a type, without its show item if it is one of some types. -/
def stripped (keys : List String) (key : String) (v : Value) : Value :=
  if key ∈ keys then v.withoutShowItem else v

theorem proper_withoutShowItem {v : Value} (hv : v.Proper) : v.withoutShowItem.Proper := by
  cases v with
  | object document => exact hv.erase "showitem"
  | _ => exact hv

theorem rel_compiledType? (h : table.Alike table') (htidy : table.Tidy) (htidy' : table'.Tidy)
    (hshow : ∀ key ty ty', key ∉ keys → table.types.get? key = some ty →
      table'.types.get? key = some ty' →
      ty'.tree.layout.showItem = ty.tree.layout.showItem) (key : String) :
    Option.Rel (fun x y => equal x y = true) ((table'.compiledType? key).map (stripped keys key))
      ((table.compiledType? key).map (stripped keys key)) := by
  by_cases hk : key = table.base.key
  · have hsame : table'.compiledType? key = table.compiledType? key := by
      rw [compiledType?, compiledType?, if_pos hk, if_pos (hk.trans h.base_key.symm), h.base_document,
        h.base]
    rw [hsame]
    cases hv : table.compiledType? key with
    | none => exact .none
    | some v =>
      have hp := htidy.proper_compiledType? hv
      rw [Option.map_some, stripped]
      split
      · exact .some (equal_refl (proper_withoutShowItem hp))
      · exact .some (equal_refl hp)
  · have hk' : key ≠ table'.base.key := h.base_key ▸ hk
    rw [compiledType?, compiledType?, if_neg hk, if_neg hk']
    cases ht : table.types.get? key with
    | none =>
      have hnone := h.types key
      rw [ht] at hnone
      rw [eq_none_of_rel hnone]
      exact .none
    | some ty =>
      obtain ⟨ty', ht', halike⟩ := h.exists_type ht
      have hdocument := h.type_document key
      rw [ht, ht', Option.map_some, Option.map_some, Option.some_inj] at hdocument
      have he := h.equal_overrides htidy htidy' ht' halike
      have hd := (htidy.types ht).document
      have ho : Proper (.ofFields (table.reductionOf (table.before key) ty).overrides) :=
        htidy.proper_reduction ht _
      have ho' : Proper (.ofFields (table'.reductionOf (table'.before key) ty').overrides) :=
        htidy'.proper_reduction ht' _
      rw [ht', Option.map_some, Option.map_some, Option.map_some, Option.map_some, hdocument,
        stripped, stripped]
      split
      · exact .some (equal_withoutShowItem hd ho ho' he _ _)
      · next hnot =>
        have hs := h.same_before htidy htidy' key
        have hfold : table'.foldOf (table'.before key) key ty' =
            table.foldOf (table.before key) key ty := by
          rw [foldOf, foldOf, hs.palettes, h.options, halike.palettes, hshow key ty ty' hnot ht ht']
        rw [hfold]
        exact .some (equal_typeDocument hd ho ho' he _)

theorem equal_types (h : table.Alike table') (htidy : table.Tidy) (htidy' : table'.Tidy)
    (hshow : ∀ key ty ty', key ∉ keys → table.types.get? key = some ty →
      table'.types.get? key = some ty' →
      ty'.tree.layout.showItem = ty.tree.layout.showItem) :
    equal (.object (table'.compileTypes.types.map fun e => (e.1, stripped keys e.1 e.2)))
      (.object (table.compileTypes.types.map fun e => (e.1, stripped keys e.1 e.2))) = true := by
  have hdistinct {types : Fields} (hd : types.Distinct) :
      Entries.Distinct (types.map fun e => (e.1, stripped keys e.1 e.2)) := by
    rw [Entries.Distinct, Entries.names, List.map_map]
    exact hd
  apply (equal_object_iff (hdistinct htidy'.distinct_types) (hdistinct htidy.distinct_types)).2
  intro key
  rw [Entries.get?_mapWith, Entries.get?_mapWith, get?_types_compileTypes htidy'.order,
    get?_types_compileTypes htidy.order, h.order]
  split
  · exact h.rel_compiledType? htidy htidy' hshow key
  · exact .none

/-- Versions of a table that add the same to the base compile to equal documents, except for the show
items of the types whose layouts differ. -/
theorem equal_compile (h : table.Alike table') (htidy : table.Tidy) (htidy' : table'.Tidy)
    (hshow : ∀ key ty ty', key ∉ keys → table.types.get? key = some ty →
      table'.types.get? key = some ty' →
      ty'.tree.layout.showItem = ty.tree.layout.showItem) :
    equal (table'.compile.withoutShowItems keys) (table.compile.withoutShowItems keys) = true := by
  have hproper := htidy.proper_compile
  have hproper' := htidy'.proper_compile
  have hs : (table.compiled table.typeOrder).Same (table'.compiled table'.typeOrder) := by
    rw [h.order]
    exact h.same htidy htidy' _
  have hpalettes : table'.compiledPalettes = table.compiledPalettes := by
    have hshared : table'.compileTypes.palettes = table.compileTypes.palettes := hs.palettes
    have hformer : table'.compileTypes.formerNames = table.compileTypes.formerNames :=
      hs.formerNames
    rw [compiledPalettes, compiledPalettes, hshared, hformer]
    apply List.map_congr_left
    intro e _
    rw [paletteDocument, paletteDocument, h.palette_documents]
  rw [compile_eq] at hproper hproper'
  rw [compile_eq, compile_eq, withoutShowItems, withoutShowItems,
    equal_object_iff (hproper'.distinct.update _ _) (hproper.distinct.update _ _)]
  intro part
  rw [Entries.get?_update, Entries.get?_update]
  split
  · next hpart =>
    rw [hpart, get?_types_withParts, get?_types_withParts]
    exact .some (h.equal_types htidy htidy' hshow)
  · next htypes =>
    by_cases hcolumns : part = "columns"
    · rw [hcolumns, get?_columns_withParts, get?_columns_withParts]
      have hcompiled := htidy.proper_compiled table.typeOrder
      have hcompiled' := htidy'.proper_compiled table'.typeOrder
      apply Option.Rel.some
      apply (equal_ofFields_iff (proper_ofFields_iff.1 hcompiled').1
        (proper_ofFields_iff.1 hcompiled).1).2
      intro id
      rw [hs.columns]
      cases hx : (table.compiled table.typeOrder).columns.get? id with
      | none => exact .none
      | some config => exact .some (equal_refl ((proper_ofFields_iff.1 hcompiled).2 id config hx))
    · by_cases hpart : part = "palettes"
      · rw [hpart, hpalettes, h.document, get?_palettes_withParts_congr table.document
          table.compileTypes.columns _ table.compiledPalettes table.compileTypes.types]
        cases hx : (withParts table.document table.compileTypes.columns table.compiledPalettes
            table.compileTypes.types).get? "palettes" with
        | none => exact .none
        | some x => exact .some (equal_refl (hproper.get? hx))
      · have hne : part ∉ ["columns", "palettes", "types"] := by simp [htypes, hcolumns, hpart]
        rw [get?_withParts_of_ne _ _ _ _ hne, get?_withParts_of_ne _ _ _ _ hne, h.document]
        cases hx : table.document.get? part with
        | none => exact .none
        | some x => exact .some (equal_refl (htidy.document.get? hx))

/-- Where no layout differs, the compiled documents are equal as they are. -/
theorem equal_compile_of_layouts (h : table.Alike table') (htidy : table.Tidy)
    (htidy' : table'.Tidy) (hshow : ∀ key ty ty', table.types.get? key = some ty →
      table'.types.get? key = some ty' →
      ty'.tree.layout.showItem = ty.tree.layout.showItem) :
    equal table'.compile table.compile = true := by
  have he : equal (table'.compile.withoutShowItems []) (table.compile.withoutShowItems []) = true :=
    h.equal_compile htidy htidy' fun key ty ty' _ => hshow key ty ty'
  rwa [withoutShowItems_nil, withoutShowItems_nil] at he

end Alike

end Table

end FormLayout
