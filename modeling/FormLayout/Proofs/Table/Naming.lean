import FormLayout.Proofs.Layout.Redirect
import FormLayout.Proofs.Layout.Synthesis
import FormLayout.Proofs.Palette.Apart
import FormLayout.Proofs.Table.Expansion
import FormLayout.Proofs.Table.Loaded
/-!
Tables where the names made for palettes of the types are free. Their palettes are stored as they
were shown, each under a name of its own, and no field stands in the way of a palette with a new name.
-/

namespace FormLayout
set_option autoImplicit true
open Palette

namespace Table

/-- The names that are made for the palettes of derived types differ, and no palette has one. -/
structure Apart (table : Table) : Prop where
  fresh {key name : String} : key ∈ table.types.names → name ∈ table.palettes.names →
    renamedId key name ∉ table.palettes.names
  injective {key key' name name' : String} : key ∈ table.types.names →
    key' ∈ table.types.names → name ∈ table.palettes.names → name' ∈ table.palettes.names →
    renamedId key name = renamedId key' name' → key = key' ∧ name = name'

/-- A palette of a derived type may get the node with this id, under the name that is made for it. -/
def Reserves (table : Table) (id : String) : Prop :=
  ∃ key ∈ table.types.names, ∃ name ∈ table.palettes.names, id = paletteId (renamedId key name)

/-- No column in a document has a colon in its id, and no column that has overrides there and no
field of a palette that a type refers to has the id of a node that a palette may get. -/
structure FieldsApart (table : Table) (value : Value) : Prop where
  columns {id : String} : id ∈ (partOf value "columns").names → ':' ∉ id.toList
  overrides {key id : String} : key ∈ table.types.names → id ∈ (overridesIn value key).names →
    ¬ table.Reserves id
  inside {key id : String} : id ∈ (Layout.ofDocument value key).paletteFields → ¬ table.Reserves id

/-- No column of a table or of its types has the id of a node that a palette may get. -/
structure ColumnsApart (table : Table) : Prop where
  columns {id : String} : id ∈ table.columns.names → ¬ table.Reserves id
  overrides {key id : String} {ty : TableType} : table.types.get? key = some ty →
    id ∈ ty.columns.names → ¬ table.Reserves id

variable {table : Table} {key : String} {ty : TableType}

theorem not_reserves_of_colonFree {id : String} (h : ':' ∉ id.toList) : ¬ table.Reserves id := by
  rintro ⟨key, _, name, _, rfl⟩
  apply h
  rw [paletteId, String.toList_append]
  exact List.mem_append_left _ (by decide)

/-- Loading adds only fields of palettes to the columns. -/
theorem FieldsApart.loaded {name : String} {value : Value} {options : Options}
    (h : table.FieldsApart value) (hread : Table.read name value options = .ok table) :
    table.ColumnsApart := by
  obtain ⟨source, hs, _, types, ht, rfl⟩ := read_ok_iff.1 hread
  constructor
  case columns =>
    intro id hid
    rcases Layout.mem_names_read hid with hcolumn | hfield
    · have hcolumn := mem_names_columnsOf hs.columns hcolumn
      apply not_reserves_of_colonFree
      apply h.columns
      rw [hs.document]
      exact hcolumn
    · rw [hs.layout_eq] at hfield
      exact h.inside hfield
  case overrides =>
    intro key id ty hty hid
    obtain ⟨_, _, hr⟩ := Source.readType_of_readTypes ht hty
    obtain ⟨columns, hc, _, rfl⟩ := readType_ok_iff.1 hr
    rcases Layout.mem_names_read hid with hcolumn | hfield
    · have hcolumn := mem_names_columnsOf hc hcolumn
      apply h.overrides (Entries.mem_names_iff.2 ⟨_, hty⟩)
      rw [overridesIn, ← hs.documents_eq]
      exact hcolumn
    · rw [hs.layout_eq] at hfield
      exact h.inside hfield

theorem Loaded.palettes_subset (h : table.Loaded) (hty : table.type? key = some ty) :
    ∀ name ∈ ty.tree.layout.palettes.names, name ∈ table.palettes.names := by
  intro name hm
  apply Entries.has_iff.1
  rw [type?] at hty
  split at hty
  · rw [← Option.some.inj hty] at hm
    exact h.base_read.has_palette hm
  · exact (h.type_read hty).has_palette hm

/-- A palette of a derived type keeps its name, or gets the one that is made for it. -/
def Settles (table : Table) (key : String) (ty : TableType) : Prop :=
  ∀ name ∈ ty.tree.layout.palettes.names, follow (table.renamings key) name = name ∨
    follow (table.renamings key) name = renamedId key name

/-- The palettes on the way through the types: only names that were made are written. -/
structure Clean (table : Table) (keys : List String) (c : Compiled) : Prop where
  get?_eq {name : String} : (∀ key ∈ keys, key ∈ table.types.names →
      ∀ p ∈ table.palettes.names, name ≠ renamedId key p) →
    c.palettes.get? name = (table.compiled []).palettes.get? name
  settles {key : String} {ty : TableType} : key ∈ keys → key ≠ table.base.key →
    table.types.get? key = some ty → table.Settles key ty

namespace Apart

variable {keys : List String} {c : Compiled}

theorem get?_of_clean (ha : table.Apart) (hc : table.Clean keys c) {name : String}
    (hn : name ∈ table.palettes.names) :
    c.palettes.get? name = (table.compiled []).palettes.get? name := by
  apply hc.get?_eq
  rintro key _ hkey p hp rfl
  exact ha.fresh hkey hp hn

theorem clean_derived (ha : table.Apart) (h : table.Loaded) (hc : table.Clean keys c)
    (hk : key ≠ table.base.key) (ht : table.types.get? key = some ty)
    (hbefore : table.before key = c) :
    table.Clean (keys ++ [key]) (table.compileType c key) := by
  have hty : table.type? key = some ty := (type?_of_ne hk).trans ht
  have hkey : key ∈ table.types.names := Entries.mem_names_iff.2 ⟨ty, ht⟩
  have hsub := h.palettes_subset hty
  have hhas : ∀ name ∈ ty.tree.layout.palettes.names, c.palettes.has name = true := by
    intro name hm
    rw [Entries.has, ha.get?_of_clean hc (hsub name hm)]
    exact Entries.has_iff.2 (Entries.mem_names_extend _ (hsub name hm))
  obtain ⟨hends, hkept⟩ := addAll_apart table.options.canonicalPalettes ty.tree.layout.showItem
    (Entries.distinct_ofList _ : ty.tree.layout.palettes.Distinct) hhas fun a hma b hmb he =>
      ha.fresh hkey (hsub a hma) (he ▸ hsub b hmb)
  have hself := renamings_derived hk ht
  rw [hbefore] at hself
  rw [compileType_derived c hk ht]
  refine ⟨fun {name} hn => ?_, fun {k u} hm hne hu => ?_⟩
  · refine (hkept name fun a hma => ?_).trans (hc.get?_eq fun k hm => hn k ?_)
    · exact hn key (by simp) hkey a (hsub a hma)
    · exact List.mem_append_left _ hm
  · rcases List.mem_append.1 hm with hm | hm
    · exact hc.settles hm hne hu
    · rw [List.mem_singleton.1 hm] at hu ⊢
      rw [ht, Option.some_inj] at hu
      rw [← hu]
      rw [Settles, hself]
      exact hends

theorem clean_skip (hc : table.Clean keys c) (ht : table.types.get? key = none) :
    table.Clean (keys ++ [key]) c := by
  refine ⟨fun {name} hn => hc.get?_eq fun k hm => hn k (List.mem_append_left _ hm),
    fun {k u} hm hne hu => ?_⟩
  rcases List.mem_append.1 hm with hm | hm
  · exact hc.settles hm hne hu
  · rw [List.mem_singleton.1 hm] at hu
    cases ht.symm.trans hu

theorem clean (ha : table.Apart) (h : table.Loaded) :
    table.Clean table.typeOrder table.compileTypes := by
  apply compiled_induction h.order
  · exact ⟨fun _ => rfl, fun hm => (nomatch hm)⟩
  · intro keys key _ _ hbefore hc
    cases ht : table.types.get? key with
    | none =>
      obtain ⟨types, he⟩ := compileType_skip (table.compiled keys) ht
      have hs := clean_skip hc ht
      rw [he]
      exact ⟨hs.get?_eq, hs.settles⟩
    | some ty => exact ha.clean_derived h hc (h.ne_base ht) ht hbefore

theorem ends_cases (ha : table.Apart) (h : table.Loaded) (hty : table.type? key = some ty)
    {name : String} (hn : name ∈ ty.tree.layout.palettes.names) :
    follow (table.renamings key) name = name ∨
      key ∈ table.types.names ∧ follow (table.renamings key) name = renamedId key name := by
  by_cases hk : key = table.base.key
  · rw [hk, renamings_base]
    exact .inl rfl
  · have ht := (type?_of_ne hk).symm.trans hty
    refine ((ha.clean h).settles (h.type_mem ht) hk ht name hn).imp_right fun hx => ⟨?_, hx⟩
    exact Entries.mem_names_iff.2 ⟨ty, ht⟩

/-- No other palette gets the name of one: it is no new name, or it is new for this palette only. -/
theorem latest_eq (ha : table.Apart) (h : table.Loaded) (hty : table.type? key = some ty)
    {e : String × String} (he : e ∈ ty.tree.layout.palettes) :
    table.latest key (follow (table.renamings key) e.1) e.2 = e.2 := by
  apply latest_of_forall
  intro r hr hx
  obtain ⟨k, _, hr⟩ := List.mem_flatMap.1 hr
  obtain ⟨u, name, hk, ht, hget, hnew⟩ := mem_replacing hr
  have hu : table.type? k = some u := (type?_of_ne hk).trans ht
  have hkey : k ∈ table.types.names := Entries.mem_names_iff.2 ⟨u, ht⟩
  have hown : e.1 ∈ ty.tree.layout.palettes.names := List.mem_map_of_mem he
  have hname := h.palettes_subset hu name (Entries.mem_names_iff.2 ⟨_, hget⟩)
  have hmine := h.palettes_subset hty e.1 hown
  rw [hnew] at hx
  rcases ha.ends_cases h hty hown with hend | ⟨hkey', hend⟩ <;> rw [hend] at hx
  · exact absurd (hx ▸ hmine) (ha.fresh hkey hname)
  · obtain ⟨rfl, rfl⟩ := ha.injective hkey hkey' hname hmine hx
    cases hty.symm.trans hu
    exact Option.some.inj
      (hget.symm.trans (Entries.get?_of_mem (Entries.distinct_ofList _ : Entries.Distinct _) he))

/-- The palettes that a type shows are stored under their names, which keep them apart. -/
theorem redirects (ha : table.Apart) (h : table.Loaded) (hty : table.type? key = some ty) :
    Layout.Redirects table.compileTypes.palettes table.options.canonicalPalettes ty.tree
      (table.renamings key) := by
  refine ⟨fun e he => ?_, h.plain_renamings key, fun a hma b hmb he => ?_, fun e he => ?_⟩
  · obtain ⟨u, hk, ht, hown, _⟩ := mem_renamings he
    cases hty.symm.trans ((type?_of_ne hk).trans ht)
    exact hown
  · have hna := h.palettes_subset hty a hma
    have hnb := h.palettes_subset hty b hmb
    rcases ha.ends_cases h hty hma with hea | ⟨hk, hea⟩ <;>
      rcases ha.ends_cases h hty hmb with heb | ⟨hk', heb⟩ <;> rw [hea, heb] at he
    · exact he
    · exact absurd (he ▸ hna) (ha.fresh hk' hnb)
    · exact absurd (he.symm ▸ hnb) (ha.fresh hk hna)
    · exact (ha.injective hk hk' hna hnb he).2
  · have hstored := h.stores key (List.mem_cons_of_mem _ (h.mem_typeOrder hty).1) ty hty e he
    rwa [show Palette.latest _ _ _ = e.2 from ha.latest_eq h hty he] at hstored

theorem get?_palettes_base (ha : table.Apart) (h : table.Loaded) {e : String × String}
    (he : e ∈ table.base.tree.layout.palettes) :
    table.compileTypes.palettes.get? e.1 = some e.2 := by
  rw [ha.get?_of_clean (ha.clean h) (h.palettes_subset (type?_base table) e.1
    (List.mem_map_of_mem he))]
  exact get?_palettes_start he

end Apart

end Table

end FormLayout
