import FormLayout.Proofs.Document.Value
import FormLayout.Proofs.Layout.RoundTrip
import FormLayout.Table.Reading
/-!
What it takes for a table to be read, and what it then consists of.
-/

namespace FormLayout
set_option autoImplicit true

theorem mapM_ok_iff {f : α → Except ε β} {l : List α} {r : List β} :
    l.mapM f = .ok r ↔ List.Forall₂ (fun a b => f a = .ok b) l r := by
  induction l generalizing r with
  | nil => cases r <;> simp [pure, Except.pure]
  | cons a rest ih =>
    rw [List.mapM_cons]
    cases hf : f a with
    | error e =>
      refine ⟨(nomatch ·), fun h => ?_⟩
      cases h with
      | cons hb _ => cases hf.symm.trans hb
    | ok b =>
      cases hm : rest.mapM f with
      | error e =>
        refine ⟨(nomatch ·), fun h => ?_⟩
        cases h with
        | cons _ hr => cases hm.symm.trans (ih.2 hr)
      | ok bs =>
        constructor
        · rintro ⟨⟩
          exact .cons hf (ih.1 hm)
        · rintro (_ | ⟨hb, hr⟩)
          cases hf.symm.trans hb
          cases hm.symm.trans (ih.2 hr)
          rfl

/-- A loop stops at the first entry that gives an error. -/
theorem mapM_error_iff {f : α → Except ε β} {g : α → Option ε}
    (hg : ∀ a e, f a = .error e ↔ g a = some e) {l : List α} :
    l.mapM f = .error e ↔ l.findSome? g = some e := by
  induction l with
  | nil => exact ⟨(nomatch ·), (nomatch ·)⟩
  | cons a rest ih =>
    rw [List.mapM_cons, List.findSome?_cons]
    cases hf : f a with
    | error e' =>
      rw [(hg a e').1 hf]
      exact ⟨fun h => congrArg some (Except.error.inj h), fun h => congrArg _ (Option.some.inj h)⟩
    | ok b =>
      have hnone : g a = none := by
        cases hga : g a with
        | none => rfl
        | some e' => cases hf.symm.trans ((hg a e').2 hga)
      rw [hnone]
      dsimp only
      rw [← ih]
      cases rest.mapM f with
      | error e' => exact Iff.rfl
      | ok bs => exact ⟨(nomatch ·), (nomatch ·)⟩

theorem exists_of_forall₂ {R : α → β → Prop} {l : List α} {r : List β} (h : List.Forall₂ R l r)
    (hb : b ∈ r) : ∃ a ∈ l, R a b := by
  induction h with
  | nil => cases hb
  | cons hr _ ih =>
    rcases List.mem_cons.1 hb with rfl | hb
    · exact ⟨_, List.mem_cons_self, hr⟩
    · obtain ⟨a, ha, hr⟩ := ih hb
      exact ⟨a, List.mem_cons_of_mem _ ha, hr⟩

theorem bind_ok_iff {x : Except ε α} {f : α → Except ε β} :
    x >>= f = .ok b ↔ ∃ a, x = .ok a ∧ f a = .ok b := by
  cases x <;> simp [bind, Except.bind]

namespace Table

theorem exists_of_check {x : Except ε α} {p : α → Bool}
    (h : (match x with | .ok a => p a | .error _ => false) = true) :
    ∃ a, x = .ok a ∧ p a = true := by
  cases x with
  | ok a => exact ⟨a, rfl, h⟩
  | error e => cases h

variable {name key : String} {options : Options} {document : Fields}

/-- The show items of palette documents. -/
def palettesOf (documents : Fields) : Palettes :=
  documents.map fun e => (e.1, TableType.showItemIn (e.2.fields?.getD []))

/-- A type as it comes from its document, once its layout is read. -/
def typeOf (key : String) (document : Fields) (lookup : String → Option Fields)
    (filled : Layout.Filled) : TableType :=
  ⟨key, filled.tree, filled.columns, document, Memory.resolveAll [] lookup filled.asked⟩

theorem readType_ok_iff {palettes : Palettes} {lookup : String → Option Fields} :
    readType name options palettes lookup key document = .ok ty ↔
    ∃ columns, columnsOf name ("types." ++ key ++ ".columnsOverrides")
        (document.get? "columnsOverrides") = .ok columns ∧
      (Layout.read ⟨TableType.showItemIn document, palettes⟩ (.empty options.defaultTabLabel)
        columns (some lookup)).failure = none ∧
      ty = typeOf key document lookup (Layout.read ⟨TableType.showItemIn document, palettes⟩
        (.empty options.defaultTabLabel) columns (some lookup)) := by
  simp only [readType, TableType.unread]
  cases hc : columnsOf name ("types." ++ key ++ ".columnsOverrides")
    (document.get? "columnsOverrides") with
  | error e => simp [bind, Except.bind]
  | ok columns =>
    simp only [bind, Except.bind, Except.ok.injEq, exists_eq_left']
    cases hf : (Layout.read ⟨TableType.showItemIn document, palettes⟩
      (.empty options.defaultTabLabel) columns (some lookup)).failure with
    | some e => simp [throw, throwThe, MonadExceptOf.throw]
    | none => simp [pure, Except.pure, typeOf, eq_comm]

/-- The parts of a document from which a table is read. -/
structure Source where
  document : Fields
  columns : Columns
  paletteDocuments : Fields
  documents : Fields

namespace Source

variable (source : Source) (options : Options)

def baseKey : String := Table.baseKey options source.documents

def palettes : Palettes := palettesOf source.paletteDocuments

/-- The outcome of reading the layout of the base type. -/
def filled : Layout.Filled :=
  Layout.read ⟨TableType.showItemIn (documentOf source.documents (source.baseKey options)),
    source.palettes⟩ (.empty options.defaultTabLabel) source.columns none

def lookup : String → Option Fields :=
  FormLayout.baseConfig? (source.filled options).tree (source.filled options).columns

/-- The table with the given derived types. -/
def table (name : String) (types : Entries TableType) : Table where
  name := name
  options := options
  document := source.document
  columns := (source.filled options).columns
  palettes := source.palettes
  paletteDocuments := source.paletteDocuments
  base := ⟨source.baseKey options, (source.filled options).tree, [],
    documentOf source.documents (source.baseKey options), []⟩
  types := types
  typeOrder :=
    if source.documents.isEmpty then [source.baseKey options] else source.documents.names

/-- The parts stand in a document. -/
structure In (name : String) (value : Value) : Prop where
  document : value = .object source.document
  columns : columnsOf name "columns" (source.document.get? "columns") = .ok source.columns
  palettes : objects name "palettes" (source.document.get? "palettes") =
    .ok source.paletteDocuments
  types : objects name "types" (source.document.get? "types") = .ok source.documents

end Source

/-- Reads the derived types of the parts. -/
def Source.readTypes (source : Source) (options : Options) (name : String) :
    Except Error (Entries TableType) :=
  (source.documents.names.filter (· ≠ source.baseKey options)).mapM fun key => do
    return (key, ← readType name options source.palettes (source.lookup options) key
      (documentOf source.documents key))

theorem Source.In.read_eq {source : Source} (h : source.In name value) :
    Table.read name value options = match (source.filled options).failure with
      | some e => .error e
      | none => (source.readTypes options name).map (source.table options name) := by
  rw [h.document]
  change (columnsOf name "columns" (source.document.get? "columns") >>= _) = _
  rw [h.columns]
  change (objects name "palettes" (source.document.get? "palettes") >>= _) = _
  rw [h.palettes]
  change (objects name "types" (source.document.get? "types") >>= _) = _
  rw [h.types]
  change (match (source.filled options).failure with
    | some e => Except.error e
    | none => source.readTypes options name >>= fun types =>
      .ok (source.table options name types)) = _
  cases (source.filled options).failure with
  | some e => rfl
  | none => cases source.readTypes options name <;> rfl

theorem exists_source (h : Table.read name value options = .ok table) :
    ∃ source : Source, source.In name value := by
  cases value with
  | object document =>
    obtain ⟨columns, hc, h⟩ := bind_ok_iff.1 h
    obtain ⟨paletteDocuments, hp, h⟩ := bind_ok_iff.1 h
    obtain ⟨documents, ht, _⟩ := bind_ok_iff.1 h
    exact ⟨⟨document, columns, paletteDocuments, documents⟩, rfl, hc, hp, ht⟩
  | _ => cases h

theorem Source.readTypes_ok_iff {source : Source} {types : Entries TableType} :
    source.readTypes options name = .ok types ↔
    List.Forall₂ (fun key e => e.1 = key ∧ readType name options source.palettes
        (source.lookup options) key (documentOf source.documents key) = .ok e.2)
      (source.documents.names.filter (· ≠ source.baseKey options)) types := by
  rw [readTypes, mapM_ok_iff]
  have hpair (key : String) (e : String × TableType) : (do
      return (key, ← readType name options source.palettes (source.lookup options) key
        (documentOf source.documents key)) : Except Error (String × TableType)) = .ok e ↔
      e.1 = key ∧ readType name options source.palettes (source.lookup options) key
        (documentOf source.documents key) = .ok e.2 := by
    obtain ⟨k, ty⟩ := e
    rw [bind_ok_iff]
    constructor
    · rintro ⟨ty, hty, ⟨⟩⟩
      exact ⟨rfl, hty⟩
    · rintro ⟨rfl, hty⟩
      exact ⟨ty, hty, rfl⟩
  simp only [hpair]

/-- A type among those that were read is a derived one, and was read of its document. -/
theorem Source.readType_of_readTypes {source : Source} {types : Entries TableType}
    (h : source.readTypes options name = .ok types) (hty : Entries.get? types key = some ty) :
    key ∈ source.documents.names ∧ key ≠ source.baseKey options ∧
      readType name options source.palettes (source.lookup options) key
        (documentOf source.documents key) = .ok ty := by
  obtain ⟨k, hm, rfl, hread⟩ :=
    exists_of_forall₂ (readTypes_ok_iff.1 h) (Entries.mem_of_get? hty)
  obtain ⟨hm, hk⟩ := List.mem_filter.1 hm
  exact ⟨hm, of_decide_eq_true hk, hread⟩

/-- A table is what was read of its document: the layout of the base type, and then the types. -/
theorem read_ok_iff : Table.read name value options = .ok table ↔
    ∃ source : Source, source.In name value ∧ (source.filled options).failure = none ∧
      ∃ types, source.readTypes options name = .ok types ∧
        table = source.table options name types := by
  constructor
  · intro h
    obtain ⟨source, hs⟩ := exists_source h
    rw [hs.read_eq] at h
    split at h
    · cases h
    · next hf =>
      obtain ⟨types, ht, rfl⟩ := exists_of_map_eq_ok h
      exact ⟨source, hs, hf, types, ht, rfl⟩
  · rintro ⟨source, hs, hf, types, ht, rfl⟩
    rw [hs.read_eq, hf, ht]
    rfl

theorem baseKey_mem (options : Options) {types : Fields} (h : types.isEmpty = false) :
    baseKey options types ∈ types.names := by
  cases types with
  | nil => cases h
  | cons e rest =>
    rw [baseKey]
    have hfirst : (Entries.names (e :: rest)).headD "0" ∈ Entries.names (e :: rest) :=
      List.mem_cons_self
    cases options.baseTypeKey with
    | none => exact hfirst
    | some key =>
      dsimp only
      split
      · next hk => exact Entries.has_iff.1 (by simpa using hk)
      · exact hfirst

theorem objects_ok (h : objects table path part = .ok m) :
    m = [] ∨ part = some (.object m) ∧ ∀ e ∈ m, (e.2.fields?).isSome = true := by
  rw [objects.eq_def] at h
  split at h
  · exact .inl (Except.ok.inj h).symm
  · exact .inl (Except.ok.inj h).symm
  · exact .inl (Except.ok.inj h).symm
  · split at h
    · cases h
    · next hf =>
      cases h
      refine .inr ⟨rfl, fun e he => ?_⟩
      have hs := List.find?_eq_none.1 hf e he
      simpa [Option.isSome_iff_ne_none] using hs
  · cases h

theorem objects_eq (h : objects table path part = .ok m) :
    m = (part.bind Value.fields?).getD [] := by
  rw [objects.eq_def] at h
  split at h
  · exact (Except.ok.inj h).symm
  · exact (Except.ok.inj h).symm
  · exact (Except.ok.inj h).symm
  · split at h
    · cases h
    · exact (Except.ok.inj h).symm
  · cases h

theorem mem_names_columnsOf {columns : Columns} (h : columnsOf table path part = .ok columns)
    {id : String} (hid : id ∈ columns.names) :
    id ∈ Entries.names ((part.bind Value.fields?).getD []) := by
  obtain ⟨m, hm, rfl⟩ := exists_of_map_eq_ok h
  rw [← objects_eq hm]
  obtain ⟨e, he, rfl⟩ := List.mem_map.1 hid
  obtain ⟨own, hown, he⟩ := List.mem_filterMap.1 he
  obtain ⟨fields, _, rfl⟩ := Option.map_eq_some_iff.1 he
  exact List.mem_map_of_mem hown

theorem Source.In.proper {source : Source} {value : Value} (h : source.In name value)
    (hv : value.Proper) :
    source.document.Distinct ∧ source.paletteDocuments.Distinct ∧ source.documents.Distinct := by
  rw [h.document] at hv
  have hpart {path part m} (ho : objects path part (source.document.get? part) = .ok m) :
      Entries.Distinct m := by
    rcases objects_ok ho with rfl | ⟨hm, _⟩
    · exact List.nodup_nil
    · exact (Value.proper_object_iff.1 (hv.get? hm)).1
  exact ⟨(Value.proper_object_iff.1 hv).1, hpart h.palettes, hpart h.types⟩

end Table

end FormLayout
