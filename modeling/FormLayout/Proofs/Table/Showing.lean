import FormLayout.Proofs.Table.Alike
/-!
Showing fields that are known. A type that shows a field for the first time takes it over from the base,
with what it stores of it. In the compiled document no more than its show item tells.
-/

namespace FormLayout
set_option autoImplicit true
open Value Column

namespace FormTree

variable {t : FormTree} {loose : String → Prop}

/-- A tree that shows one more field. -/
structure Shows (t : FormTree) (id : String) (config : Fields) (u : FormTree) : Prop where
  tabs : u.tabs = t.tabs
  palettes : u.palettes = t.palettes
  config? (x : String) : (u.field? x).bind Node.config? =
    if x = id then some config else (t.field? x).bind Node.config?

theorem run_field_of_some {id : String} (hn : t.node? id = some n) (config : Fields) :
    (t.run (.field id config [])).1 = t := by
  rw [FormTree.run, field, create, hn]
  dsimp only
  split <;> rfl

theorem Linked.run_field (h : t.Linked loose) (htabs : t.tabs ≠ []) {id : String}
    (hid : t.node? id = none) (config : Fields) :
    t.Shows id config (t.run (.field id config [])).1 := by
  obtain ⟨u, hu, ha⟩ := h.create_last (.field config) hid (fun _ => (nomatch ·)) (nomatch ·) htabs
  obtain ⟨tab, htab, hk⟩ := h.node?_getLast htabs
  have hpalette : tab.palette? = none := by
    rw [Node.palette?]
    split
    · next hc =>
      rw [Node.kind, hc] at hk
      cases hk
    · rfl
  rw [FormTree.run, field, hu]
  exact ⟨ha.tabs, ha.palettes h hid htab hpalette rfl, ha.config?_field?⟩

end FormTree

namespace TableType

variable {lookup : String → Option Fields} {ty ty' : TableType} {id : String}

/-- The field is in the base, or the type stores it. -/
def Knows (ty : TableType) (lookup : String → Option Fields) (id : String) : Prop :=
  (lookup id).isSome = true ∨ ty.columns.has id = true

instance (ty : TableType) (lookup : String → Option Fields) (id : String) :
    Decidable (ty.Knows lookup id) := inferInstanceAs (Decidable (_ ∨ _))

theorem Knows.exists_own (h : ty.Knows lookup id) (hl : lookup id = none) :
    ∃ own, ty.columns.get? id = some own := by
  rw [Knows, hl] at h
  exact Option.isSome_iff_exists.1 (h.resolve_left (nomatch ·))

/-- The configuration that a field gets when the type first shows it. -/
def inherited (ty : TableType) (lookup : String → Option Fields) (id : String) : Fields :=
  merge ((lookup id).getD []) ((ty.columns.get? id).getD [])

/-- A type, and the same type after fields that it knows were shown. -/
structure Showing (lookup : String → Option Fields) (ty ty' : TableType) : Prop where
  woven : ty'.Woven
  tabs : ty'.tree.tabs ≠ []
  palettes : ty'.tree.palettes = ty.tree.palettes
  columns : ty'.columns = ty.columns
  memory {id : String} {known : Option Fields} : ty'.memory.get? id = some known →
    known = lookup id
  shown (id : String) :
    (ty'.tree.field? id).bind Node.config? = (ty.tree.field? id).bind Node.config? ∨
      ty.Knows lookup id ∧ (ty.tree.field? id).bind Node.config? = none ∧
        (ty'.tree.field? id).bind Node.config? = some (ty.inherited lookup id)

namespace Showing

/-- What a type remembers of the base is what the base has. -/
theorem resolve (h : Showing lookup ty ty') (id : String) :
    Showing lookup ty (ty'.resolve lookup id).1 ∧ (ty'.resolve lookup id).2 = lookup id := by
  rw [TableType.resolve, Memory.resolve]
  cases hm : ty'.memory.get? id with
  | some known => exact ⟨h, h.memory hm⟩
  | none =>
    apply And.intro _ rfl
    constructor
    case woven => exact h.woven
    case tabs => exact h.tabs
    case palettes => exact h.palettes
    case columns => exact h.columns
    case shown => exact h.shown
    case memory =>
      intro x known hx
      dsimp only at hx
      rw [Entries.get?_put] at hx
      split at hx
      · next he =>
        rw [he]
        exact (Option.some.inj hx).symm
      · exact h.memory hx

/-- A field is created only where there was none, and then as the type inherits it. -/
theorem edit (h : Showing lookup ty ty') (hk : ty.Knows lookup id) {config : Fields}
    (hc : ty'.tree.field? id = none → config = ty.inherited lookup id) :
    Showing lookup ty (ty'.edit (.field id config [])).1 := by
  cases hn : ty'.tree.node? id with
  | some n =>
    rw [TableType.edit]
    dsimp only
    rw [FormTree.run_field_of_some hn]
    exact h
  | none =>
    have hwoven := h.woven.edit (.field id config [])
    obtain ⟨loose, hj⟩ := h.woven
    have hshows := hj.toLinked.run_field h.tabs hn config
    have hfield : ty'.tree.field? id = none := by
      rw [FormTree.field?, hn]
      rfl
    obtain rfl := hc hfield
    constructor
    case woven => exact hwoven
    case tabs => exact hshows.tabs ▸ h.tabs
    case palettes => exact hshows.palettes.trans h.palettes
    case columns => exact h.columns
    case memory => exact h.memory
    case shown =>
      intro x
      have hx := hshows.config? x
      by_cases he : x = id
      · subst he
        rw [if_pos rfl] at hx
        have hnone : (ty.tree.field? x).bind Node.config? = none := by
          rcases h.shown x with hsame | ⟨_, hnone, _⟩
          · rw [← hsame, hfield, Option.bind_none]
          · exact hnone
        exact .inr ⟨hk, hnone, hx⟩
      · rw [if_neg he] at hx
        rcases h.shown x with hsame | ⟨hknows, hnone, hsome⟩
        · exact .inl (hx.trans hsame)
        · exact .inr ⟨hknows, hnone, hx.trans hsome⟩

/-- Asking for a field that the type knows. -/
theorem field (h : Showing lookup ty ty') (hk : ty.Knows lookup id) :
    Showing lookup ty (ty'.field lookup id []).1 := by
  rw [TableType.field]
  split
  · next hsome =>
    apply h.edit hk
    intro hnone
    rw [hnone] at hsome
    cases hsome
  · obtain ⟨hresolved, hanswer⟩ := h.resolve id
    apply hresolved.edit hk
    intro _
    exact congrArg₂ (fun known own => merge (Option.getD known []) (Option.getD own [])) hanswer
      (congrArg (Entries.get? · id) hresolved.columns)

/-- The fields that are newly shown are those that the type had its own columns of, or none. -/
theorem get?_allColumns (h : Showing lookup ty ty') (hw : ty.Woven) (base : Columns) (id : String) :
    (ty'.allColumns base).get? id = (ty.allColumns base).get? id ∨
      ty.Knows lookup id ∧ (ty'.allColumns base).get? id = some (ty.inherited lookup id) ∧
        (ty.allColumns base).get? id =
          (ty.columns.get? id).map (merge ((base.get? id).getD [])) := by
  obtain ⟨loose, hj⟩ := hw
  obtain ⟨loose', hj'⟩ := h.woven
  rw [TableType.get?_allColumns hj, TableType.get?_allColumns hj', h.columns]
  rcases h.shown id with hsame | ⟨hknows, hnone, hsome⟩
  · rw [hsame]
    exact .inl rfl
  · rw [hnone, hsome]
    exact .inr ⟨hknows, rfl, rfl⟩

end Showing

end TableType

namespace Table

variable {start table : Table} {key id : String} {ty ty' : TableType}

/-- What a type stores of a field is the same change of the base, whether it is laid over the base
before or not. -/
theorem rel_override?_inherited (h : table.Tidy) (ht : ty.Tidy)
    (hknows : ty.Knows table.baseConfig? id)
    (hknown : (table.compiled keys).columns.get? id = some known) :
    Option.Rel (fun x y => equal (.object x) (.object y) = true)
      (override? known (ty.inherited table.baseConfig? id))
      (((ty.columns.get? id).map (merge known)).bind (override? known)) := by
  have hk := (proper_ofFields_iff.1 (h.proper_compiled keys)).2 id known hknown
  rw [TableType.inherited]
  cases hb : table.baseConfig? id with
  | none =>
    obtain ⟨own, ho⟩ := hknows.exists_own hb
    rw [ho]
    exact rel_override?_merge hk ((proper_ofFields_iff.1 ht.columns).2 id own ho)
  | some config =>
    cases hknown.symm.trans (h.get?_compiled keys hb)
    cases ho : ty.columns.get? id with
    | none =>
      -- Nothing is stored, and the base has the field: there is nothing to override.
      have hself : override? known (merge known []) = none := override?_self hk
      rw [Option.getD_some, Option.getD_none, hself]
      exact .none
    | some own =>
      have hmerged := proper_merge hk ((proper_ofFields_iff.1 ht.columns).2 id own ho)
      exact rel_override? hk hmerged hmerged (equal_refl (proper_diff known hmerged))

theorem agree_showing (h : table.Tidy) (ht : table.types.get? key = some ty)
    (hs : ty.Showing table.baseConfig? ty') (keys : List String) :
    Column.Agree (table.compiled keys).columns (ty.allColumns (table.compiled keys).columns)
      (ty'.allColumns (table.compiled keys).columns) := by
  have hall := hs.get?_allColumns (h.types ht).woven (table.compiled keys).columns
  constructor
  case fresh =>
    intro x hnone
    rcases hall x with hsame | ⟨hknows, hx', hx⟩
    · exact hsame
    · cases hb : table.baseConfig? x with
      | some config => cases hnone.symm.trans (h.get?_compiled keys hb)
      | none =>
        obtain ⟨own, ho⟩ := hknows.exists_own hb
        rw [hx', hx, TableType.inherited, hb, ho, hnone]
        rfl
  case known =>
    intro x known hknown
    rcases hall x with hsame | ⟨hknows, hx', hx⟩
    · exact rel_override?_of_eq (h.proper_all ht (h.proper_compiled keys)) hsame known
    · rw [hx', hx, hknown]
      exact rel_override?_inherited h (h.types ht) hknows hknown

theorem alikeType_showing (h : table.Tidy) (ht : table.types.get? key = some ty)
    (hs : ty.Showing table.baseConfig? ty') : table.AlikeType ty ty' :=
  ⟨hs.palettes, agree_showing h ht hs⟩

/-- A table, and the same table after fields were shown in some of its types. -/
structure Showing (start : Table) (keys : List String) (table : Table) : Prop
    extends Kept start table where
  base : table.base.tree = start.base.tree
  columns : table.columns = start.columns
  types (key : String) : Option.Rel (TableType.Showing start.baseConfig?) (start.types.get? key)
    (table.types.get? key)
  other {key : String} : key ∉ keys → table.types.get? key = start.types.get? key

namespace Showing

variable {keys : List String}

theorem refl (h : start.Parsed) (hm : ∀ key ty id known, start.types.get? key = some ty →
    ty.memory.get? id = some known → known = start.baseConfig? id) : Showing start keys start := by
  constructor
  case toKept => exact .refl start
  case base => rfl
  case columns => rfl
  case other => exact fun _ => rfl
  case types =>
    intro key
    cases ht : start.types.get? key with
    | none => exact .none
    | some ty =>
      apply Option.Rel.some
      constructor
      case woven => exact (h.tidy.types ht).woven
      case tabs => exact h.type_tabs ht
      case palettes => rfl
      case columns => rfl
      case memory => exact hm key ty _ _ ht
      case shown => exact fun _ => .inl rfl

theorem field (h : Showing start keys table) (hkey : key ∈ keys)
    (hk : ∀ ty, start.types.get? key = some ty → ty.Knows start.baseConfig? id) :
    Showing start keys (table.run (.field key id [])) := by
  have hkept := h.toKept.run (.field key id [])
  have hbase : table.baseConfig? = start.baseConfig? := by
    funext x
    rw [baseConfig?, baseConfig?, h.base, h.columns]
  rw [run, onType?] at hkept ⊢
  cases ht' : table.types.get? key with
  | none => exact h
  | some ty' =>
    obtain ⟨ty, ht, hs⟩ := exists_of_rel_some (ht' ▸ h.types key)
    rw [ht'] at hkept
    constructor
    case toKept => exact hkept
    case base => exact h.base
    case columns => exact h.columns
    case types =>
      intro x
      change Option.Rel _ _ ((table.types.put key _).get? x)
      rw [Entries.get?_put, hbase]
      split
      · next hx =>
        rw [hx, ht]
        exact .some (hs.field (hk ty ht))
      · exact h.types x
    case other =>
      intro x hx
      have hne : x ≠ key := fun he => hx (he ▸ hkey)
      exact (Entries.get?_put_of_ne _ _ hne).trans (h.other hx)

theorem alike (h : Showing start keys table) (htidy : start.Tidy) : start.Alike table := by
  constructor
  case toKept => exact h.toKept
  case base => exact h.base
  case columns => exact h.columns
  case types =>
    intro key
    have hrel := h.types key
    cases ht : start.types.get? key with
    | none =>
      rw [ht] at hrel
      rw [eq_none_of_rel hrel]
      exact .none
    | some ty =>
      obtain ⟨ty', ht', hs⟩ := exists_of_rel (ht ▸ hrel)
      rw [ht']
      exact .some (alikeType_showing htidy ht hs)

end Showing

/-- The table after fields were asked for in types, each by the type and the field. -/
def showAll (table : Table) (calls : List (String × String)) : Table :=
  table.runAll (calls.map fun call => .field call.1 call.2 [])

/-- Showing fields that are known tells in the show items of the types that show them, and nowhere
else. -/
theorem equal_compile_showAll {name : String} {value : Value} {options : Options}
    (hv : value.Proper) (hread : Table.read name value options = .ok start)
    {calls : List (String × String)} (hk : ∀ call ∈ calls, ∀ ty,
      start.types.get? call.1 = some ty → ty.Knows start.baseConfig? call.2) :
    equal ((start.showAll calls).compile.withoutShowItems (calls.map Prod.fst))
      (start.compile.withoutShowItems (calls.map Prod.fst)) = true := by
  have hparsed := parsed_of_read hv hread
  have hall := allTidy_of_read hv hread
  have htidy : (start.showAll calls).AllTidy := by
    apply hall.runAll
    intro e he
    obtain ⟨call, _, rfl⟩ := List.mem_map.1 he
    exact fun _ hm => absurd hm List.not_mem_nil
  have hshowing : Showing start (calls.map Prod.fst) (start.showAll calls) := by
    apply runAll_induction
    · exact .refl hparsed fun key ty id known ht hm => remembers_of_read hread ht hm
    · intro table e he h
      obtain ⟨call, hcall, rfl⟩ := List.mem_map.1 he
      exact h.field (List.mem_map_of_mem hcall) (hk call hcall)
  apply (hshowing.alike hparsed.tidy).equal_compile hparsed.tidy htidy.toTidy
  intro key ty ty' hkey ht ht'
  rw [hshowing.other hkey, ht, Option.some_inj] at ht'
  rw [ht']

/-- A document with a field that is in no columns but those of two types, which do not show it. -/
def hiddenOverrides : Value := .object [
  ("columns", .object [("title", .object [("label", .string "T")])]),
  ("types", .object [
    ("0", .object [("showitem", .string "title")]),
    ("1", .object [("showitem", .string ""), ("columnsOverrides", .object [("subtitle", .object
      [("label", .string "A"), ("config", .object [("max", .number (.integer 5))])])])]),
    ("2", .object [("showitem", .string ""), ("columnsOverrides", .object [("subtitle", .object
      [("label", .string "B")])])])])]

/-- The later type shows the field first. -/
def showHidden : List (String × String) := [("2", "subtitle"), ("1", "title"), ("1", "subtitle")]

theorem equal_compile_of_hiddenOverrides : ∃ start : Table,
    Table.read "pages" hiddenOverrides ⟨"general", none, true⟩ = .ok start ∧
    equal (start.showAll showHidden).compile start.compile = false ∧
    equal ((start.showAll showHidden).compile.withoutShowItems (showHidden.map Prod.fst))
      (start.compile.withoutShowItems (showHidden.map Prod.fst)) = true := by
  obtain ⟨start, hread, h⟩ := exists_of_check
    (x := Table.read "pages" hiddenOverrides ⟨"general", none, true⟩)
    (p := fun start : Table => !(equal (start.showAll showHidden).compile start.compile) &&
      showHidden.all fun call : String × String => (start.types.get? call.1).all
        fun ty : TableType => decide (ty.Knows start.baseConfig? call.2))
    (by decide +kernel)
  rw [Bool.and_eq_true, Bool.not_eq_true', List.all_eq_true] at h
  obtain ⟨hdiffers, hknows⟩ := h
  have hproper : hiddenOverrides.Proper := by
    simp [hiddenOverrides, proper_object_iff, Entries.Distinct, Entries.names, Proper.string,
      Proper.number]
  apply Exists.intro start
  apply And.intro hread
  apply And.intro hdiffers
  apply equal_compile_showAll hproper hread
  intro call hcall ty hty
  have hall := hknows call hcall
  rw [hty] at hall
  exact of_decide_eq_true hall

end Table

end FormLayout
