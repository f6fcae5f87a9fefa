import FormLayout.Proofs.Table.Compiling
/-!
The compiled document shows for each type what the type's tree shows, except where a palette was
replaced: one that gets a new name takes the place of a palette that has this name.
-/

namespace FormLayout
set_option autoImplicit true
open Palette

namespace Table

/-- The new names of a type's palettes, each with the name before. -/
def renamings (table : Table) (key : String) : List (String × String) :=
  if key = table.base.key then []
  else
    match table.types.get? key with
    | none => []
    | some ty => (table.foldOf (table.before key) key ty).renamed

/-- The palettes of a type that get new names, each with its new name and its layout. -/
def replacing (table : Table) (key : String) : Palettes :=
  match table.type? key with
  | none => []
  | some ty => Palette.replacing (table.renamings key) ty.tree.layout.palettes

/-- The palettes that get new names from a type on, where the base comes before all types. -/
def replacingFrom (table : Table) (keys : List String) (key : String) : Palettes :=
  ((table.base.key :: keys).dropWhile (· ≠ key)).flatMap table.replacing

/-- What becomes of a layout that a type refers to by a name: a palette of this type, or of one that
is compiled later, takes its place if it gets the name. -/
def latest (table : Table) (key name layout : String) : String :=
  Palette.latest (table.replacingFrom table.typeOrder key) name layout

/-- The palettes of the base and of some types are stored under their names, as far as none of these
types has a palette that replaces them. -/
def Stores (table : Table) (keys : List String) (c : Compiled) : Prop :=
  ∀ key ∈ table.base.key :: keys, ∀ ty, table.type? key = some ty →
    ∀ e ∈ ty.tree.layout.palettes,
      holds table.options.canonicalPalettes c.palettes (follow (table.renamings key) e.1)
        (Palette.latest (table.replacingFrom keys key) (follow (table.renamings key) e.1) e.2) = true

variable {table : Table} {c : Compiled} {keys : List String}

theorem type?_base (table : Table) : table.type? table.base.key = some table.base := if_pos rfl

theorem renamings_base (table : Table) : table.renamings table.base.key = [] := if_pos rfl

theorem renamings_skip {key : String} (ht : table.types.get? key = none) :
    table.renamings key = [] := by
  rw [renamings, ht]
  exact ite_self []

theorem renamings_derived {key : String} (hk : key ≠ table.base.key)
    (ht : table.types.get? key = some ty) :
    table.renamings key = (table.foldOf (table.before key) key ty).renamed := by
  rw [renamings, if_neg hk, ht]

theorem mem_renamings {key : String} {e : String × String} (he : e ∈ table.renamings key) :
    ∃ ty, key ≠ table.base.key ∧ table.types.get? key = some ty ∧
      e.1 ∈ ty.tree.layout.palettes.names ∧ e.2 = renamedId key e.1 := by
  by_cases hk : key = table.base.key
  · rw [hk, renamings_base] at he
    cases he
  cases ht : table.types.get? key with
  | none =>
    rw [renamings_skip ht] at he
    cases he
  | some ty =>
    rw [renamings_derived hk ht] at he
    exact ⟨ty, hk, rfl, mem_renamed _ key _ _ _ e he⟩

theorem mem_replacing {key : String} {r : String × String} (hr : r ∈ table.replacing key) :
    ∃ ty name, key ≠ table.base.key ∧ table.types.get? key = some ty ∧
      ty.tree.layout.palettes.get? name = some r.2 ∧ r.1 = renamedId key name := by
  rw [replacing] at hr
  split at hr
  · cases hr
  · next u hu =>
    obtain ⟨e, he, hr⟩ := List.mem_filterMap.1 hr
    obtain ⟨layout, hget, rfl⟩ := Option.map_eq_some_iff.1 hr
    obtain ⟨ty, hk, ht, _, hnew⟩ := mem_renamings he
    cases hu.symm.trans ((type?_of_ne hk).trans ht)
    exact ⟨u, e.1, hk, ht, hget, hnew⟩

namespace Sound

theorem mem_typeOrder (h : table.Sound) {key : String} (hty : table.type? key = some ty) :
    key ∈ table.typeOrder ∧ ty.tree.Writable table.options.defaultTabLabel := by
  rw [type?] at hty
  split at hty
  · next hk =>
    cases hty
    exact ⟨hk ▸ h.base_mem, h.base⟩
  · exact ⟨h.type_mem hty, h.types hty⟩

theorem plain_palettes (h : table.Sound) {key : String} (hty : table.type? key = some ty) :
    ∀ name ∈ ty.tree.layout.palettes.names, Text.Plain name := by
  obtain ⟨_, ⟨loose, hl⟩, hp⟩ := h.mem_typeOrder hty
  intro name hn
  obtain ⟨e, he, rfl⟩ := List.mem_map.1 hn
  obtain ⟨⟨item, hi, hr⟩, _⟩ := hl.mem_layout_palettes hp e he
  exact (hp.plain_items item hi).reference? hr

theorem plain_renamings (h : table.Sound) (key : String) :
    ∀ e ∈ table.renamings key, Text.Plain e.2 := by
  intro e he
  obtain ⟨ty, hk, ht, hname, hnew⟩ := mem_renamings he
  rw [hnew]
  exact plain_renamedId (h.keys key (h.type_mem ht))
    (h.plain_palettes ((type?_of_ne hk).trans ht) _ hname)

/-- A compiled show item has the items of the type's tree, with the references renamed. -/
theorem showItem_compiled (h : table.Sound) {key : String} (hty : table.type? key = some ty) :
    TableType.showItemIn (documentOf table.compileTypes.types key) =
      ShowItem.text (ty.tree.items.map (Item.redirect (table.renamings key))) := by
  obtain ⟨hmem, _, hp⟩ := h.mem_typeOrder hty
  rw [documentOf, get?_types_compileTypes h.order, if_pos hmem]
  by_cases hk : key = table.base.key
  · rw [hk, type?_base, Option.some_inj] at hty
    rw [compiledType?, if_pos hk, hk, renamings_base, ← hty, Option.bind_some,
      showItemIn_typeDocument]
    exact congrArg ShowItem.text (List.map_id _).symm
  · have ht := (type?_of_ne hk).symm.trans hty
    rw [compiledType?, if_neg hk, ht, renamings_derived hk ht, Option.map_some, Option.bind_some,
      showItemIn_typeDocument]
    exact showItem_addAll hp.plain_items (h.keys key hmem) (h.plain_palettes hty)

theorem parse_compiled (h : table.Sound) {key : String} (hty : table.type? key = some ty) :
    ShowItem.parse (TableType.showItemIn (documentOf table.compileTypes.types key)) =
      ty.tree.items.map (Item.redirect (table.renamings key)) := by
  obtain ⟨_, _, hp⟩ := h.mem_typeOrder hty
  rw [h.showItem_compiled hty]
  exact parse_text_redirect hp.plain_items hp.items_ne (h.plain_renamings key)

end Sound

theorem get?_palettes_start {e : String × String} (he : e ∈ table.base.tree.layout.palettes) :
    (table.compiled []).palettes.get? e.1 = some e.2 := by
  have hd : table.base.tree.layout.palettes.Distinct := Entries.distinct_ofList _
  refine Entries.get?_extend_of_forall (fun w hw => ?_) (.inr ⟨e.2, he⟩)
  exact Option.some.inj ((Entries.get?_of_mem hd hw).symm.trans (Entries.get?_of_mem hd he))

theorem replacing_eq_nil {key : String} (h : table.renamings key = []) :
    table.replacing key = [] := by
  rw [replacing, h]
  split <;> rfl

theorem replacingFrom_concat {k : String} (hk : k ∈ table.base.key :: keys) (key : String) :
    table.replacingFrom (keys ++ [key]) k = table.replacingFrom keys k ++ table.replacing key := by
  have hne : (table.base.key :: keys).dropWhile (· ≠ k) ≠ [] := by
    intro he
    simpa using List.dropWhile_eq_nil_iff.1 he k hk
  rw [replacingFrom, replacingFrom, ← List.cons_append, List.dropWhile_append,
    if_neg (mt List.isEmpty_iff.1 hne), List.flatMap_append, List.flatMap_singleton]

theorem replacingFrom_self {key : String} (hk : key ∉ table.base.key :: keys) :
    table.replacingFrom (keys ++ [key]) key = table.replacing key := by
  have hne : ∀ k ∈ table.base.key :: keys, decide (k ≠ key) = true := fun k hm =>
    decide_eq_true fun he => hk (he ▸ hm)
  rw [replacingFrom, ← List.cons_append, List.dropWhile_append_of_pos hne,
    List.dropWhile_cons_of_neg (by simp), List.flatMap_singleton]

theorem stores_start (table : Table) : table.Stores [] (table.compiled []) := by
  intro key hm ty hty e he
  rw [List.mem_singleton.1 hm] at hty ⊢
  rw [type?_base, Option.some_inj] at hty
  have hnone := replacing_eq_nil (renamings_base table)
  rw [replacingFrom, List.dropWhile_cons_of_neg (by simp), List.flatMap_singleton, hnone,
    renamings_base]
  exact holds_iff.2 ⟨e.2, get?_palettes_start (hty ▸ he), sameLayout_refl _ _⟩

/-- One more type: it keeps what is there, and adds its own palettes. -/
theorem Stores.concat (h : table.Stores keys c) {key : String} {more : Compiled}
    (hkept : ∀ name layout, holds table.options.canonicalPalettes c.palettes name layout = true →
      holds table.options.canonicalPalettes more.palettes name
        (Palette.latest (table.replacing key) name layout) = true)
    (hown : key ≠ table.base.key → ∀ ty, table.type? key = some ty →
      ∀ e ∈ ty.tree.layout.palettes,
        holds table.options.canonicalPalettes more.palettes (follow (table.renamings key) e.1)
          (Palette.latest (table.replacing key) (follow (table.renamings key) e.1) e.2) = true) :
    table.Stores (keys ++ [key]) more := by
  intro k hm ty hty e he
  by_cases hk : k ∈ table.base.key :: keys
  · rw [replacingFrom_concat hk, latest_append]
    exact hkept _ _ (h k hk ty hty e he)
  · have hx : k = key := by
      rw [← List.cons_append, List.mem_append] at hm
      exact List.mem_singleton.1 (hm.resolve_left hk)
    rw [hx] at hk hty ⊢
    rw [replacingFrom_self hk]
    exact hown (fun hb => hk (hb ▸ List.mem_cons_self)) ty hty e he

/-- Folding the types one after the other keeps every palette under its name, or replaces it. -/
theorem Sound.stores (h : table.Sound) : table.Stores table.typeOrder table.compileTypes := by
  apply compiled_induction h.order (stores_start table)
  intro keys key _ _ hbefore ih
  cases ht : table.types.get? key with
  | none =>
    obtain ⟨types, he⟩ := compileType_skip (table.compiled keys) ht
    rw [he]
    refine ih.concat (fun name layout hh => ?_) fun hk ty hty => ?_
    · rwa [replacing_eq_nil (renamings_skip ht)]
    · cases ((type?_of_ne hk).trans ht).symm.trans hty
  | some ty =>
    have hk := h.ne_base ht
    have hty : table.type? key = some ty := (type?_of_ne hk).trans ht
    have hkeeps : Keeps table.options.canonicalPalettes (table.compiled keys).palettes
        ty.tree.layout.palettes (table.foldOf (table.compiled keys) key ty) :=
      keeps_addAll _ _ _ _ (Entries.distinct_ofList _)
    have hself := renamings_derived hk ht
    rw [hbefore] at hself
    have hreplacing : table.replacing key =
        Palette.replacing (table.foldOf (table.compiled keys) key ty).renamed
          ty.tree.layout.palettes := by
      rw [replacing, hty, ← hself]
    rw [compileType_derived _ hk ht]
    refine ih.concat (fun name layout hh => ?_) fun _ u hu => ?_
    · rw [hreplacing]
      exact hkeeps.kept (.inl hh)
    · cases hty.symm.trans hu
      rw [hreplacing, hself]
      exact hkeeps.own

end Table

namespace Layout

/-- What an item of a layout shows. A reference gives way to the items of the palette it stands for.
Blanks and empty parts at the end of items do not count. -/
def expandItem (l : Layout) (item : Item) : Item × Option (List Item) :=
  match item.reference? with
  | some name => (Item.trimEnd item.dropLast, (l.palettes.get? name).map ShowItem.essence)
  | none => (item.trimEnd, none)

/-- What the items of a layout show, in order. -/
def expand (l : Layout) : List (Item × Option (List Item)) :=
  (ShowItem.parse l.showItem).map l.expandItem

end Layout

namespace Table

/-- An item of a type's own layout, and the item in its place in the compiled one. It shows the
same; or its palette was replaced by one with another layout that got the name last, and it shows
that one. -/
inductive Expands (table : Table) (key : String) (own compiled : Layout) (item item' : Item) :
    Prop where
  | same : compiled.expandItem item' = own.expandItem item →
      Expands table key own compiled item item'
  | replaced {name new layout : String} : item.reference? = some name →
      own.palettes.get? name = some layout → item'.reference? = some new →
      table.latest key new layout ≠ layout →
      compiled.expandItem item' =
        (Item.trimEnd item.dropLast, some (ShowItem.essence (table.latest key new layout))) →
      Expands table key own compiled item item'

theorem Sound.parse_ofDocument {table : Table} (h : table.Sound) {key : String}
    (hty : table.type? key = some ty) :
    ShowItem.parse (Layout.ofDocument table.compile key).showItem =
      ty.tree.items.map (Item.redirect (table.renamings key)) := by
  rw [Layout.ofDocument, partOf_compile_types]
  exact h.parse_compiled hty

/-- A reference in the compiled document shows what became of the layout that it stands for in the
type's tree. -/
theorem Sound.expandItem_redirect {table : Table} (h : table.Sound) {key : String} {ty : TableType}
    (hty : table.type? key = some ty) {item : Item} {name layout : String}
    (hr : item.reference? = some name)
    (hget : ty.tree.layout.palettes.get? name = some layout) :
    (Layout.ofDocument table.compile key).expandItem (item.redirect (table.renamings key)) =
      (Item.trimEnd item.dropLast, some (ShowItem.essence
        (table.latest key (follow (table.renamings key) name) layout))) := by
  obtain ⟨hkey, _⟩ := h.mem_typeOrder hty
  obtain ⟨existing, hstored, hsame⟩ := holds_iff.1 <|
    h.stores key (List.mem_cons_of_mem _ hkey) ty hty _ (Entries.mem_of_get? hget)
  have hcompiled : (Layout.ofDocument table.compile key).palettes.get?
      (follow (table.renamings key) name) = some existing := by
    rw [Layout.ofDocument, palettesOf_compile]
    exact hstored
  rw [Layout.expandItem, Item.reference?_redirect, Item.redirect_eq, hr]
  dsimp only [Option.map_some]
  rw [List.dropLast_concat, hcompiled, Option.map_some, essence_eq_of_sameLayout hsame]
  rfl

/-- Expanding the references in the compiled document gives what expanding those of a type's own
layout gives, except for palettes that were replaced. -/
theorem expand_compile {table : Table} (h : table.Opened) {key : String} {ty : TableType}
    (hty : table.type? key = some ty) :
    List.Forall₂ (table.Expands key ty.tree.layout (Layout.ofDocument table.compile key))
      (ShowItem.parse ty.tree.layout.showItem)
      (ShowItem.parse (Layout.ofDocument table.compile key).showItem) := by
  have hs := h.sound
  obtain ⟨_, ⟨loose, hl⟩, hp⟩ := hs.mem_typeOrder hty
  rw [hs.parse_ofDocument hty, hp.parse_showItem, List.forall₂_map_right_iff, List.forall₂_same]
  intro item hi
  cases hr : item.reference? with
  | none =>
    apply Expands.same
    rw [Item.redirect_of_none hr, Layout.expandItem, Layout.expandItem, hr]
  | some name =>
    obtain ⟨layout, hget⟩ : ∃ layout, ty.tree.layout.palettes.get? name = some layout :=
      ⟨_, hl.get?_layout_palettes hp hi hr⟩
    have hcompiled := hs.expandItem_redirect hty hr hget
    by_cases hx : table.latest key (follow (table.renamings key) name) layout = layout
    · apply Expands.same
      rw [hcompiled, hx, Layout.expandItem, hr]
      dsimp only
      rw [hget, Option.map_some]
    · refine .replaced hr hget ?_ hx hcompiled
      rw [Item.reference?_redirect, hr, Option.map_some]

/-- A field that a type moves into a palette of the base, which gets another name for the type. -/
theorem expand_compile_of_moved_field : ∃ (table : Table) (ty : TableType), table.Opened ∧
    table.type? "1" = some ty ∧ table.replacing "1" = [("1-p", "a,b")] ∧
    (Layout.ofDocument table.compile "1").expand = ty.tree.layout.expand ∧
    List.Forall₂ (table.Expands "1" ty.tree.layout (Layout.ofDocument table.compile "1"))
      (ShowItem.parse ty.tree.layout.showItem)
      (ShowItem.parse (Layout.ofDocument table.compile "1").showItem) := by
  obtain ⟨table, hread, h⟩ := exists_of_check (x := Table.read "pages" (.object [
      ("columns", .object [("a", .object []), ("b", .object [])]),
      ("palettes", .object [("p", .object [("showitem", .string "a")])]),
      ("types", .object [
        ("0", .object [("showitem", .string "--palette--;;p, b")]),
        ("1", .object [("showitem", .string "--palette--;;p, b")])])]) ⟨"general", none, true⟩)
    (p := fun table : Table => decide (∀ key ∈ table.typeOrder, Text.Plain key) &&
      (table.onType? "1" fun ty => ty.edit (.move "b" "bottom:palette:p")).any
        fun e : Table × Except Error Answer => decide (e.1.replacing "1" = [("1-p", "a,b")]) &&
          (e.1.type? "1").any fun ty : TableType => decide
            ((Layout.ofDocument e.1.compile "1").expand = ty.tree.layout.expand))
    (by decide +kernel)
  rw [Bool.and_eq_true, Option.any_eq_true] at h
  obtain ⟨hkeys, ⟨moved, answer⟩, hmoved, h⟩ := h
  rw [Bool.and_eq_true, Option.any_eq_true] at h
  obtain ⟨hreplacing, ty, hty, hsame⟩ := h
  have hopened : table.Opened := by
    refine .read ?_ ?_ hread (of_decide_eq_true hkeys)
    · simp [Value.proper_object_iff, Entries.Distinct, Entries.names, Value.Proper.string]
    · decide +kernel
  have hplain : (TreeEdit.move "b" "bottom:palette:p").Plain := trivial
  have hedited : moved.Opened := hopened.editType hplain hmoved
  exact ⟨moved, ty, hedited, hty, of_decide_eq_true hreplacing, of_decide_eq_true hsame,
    expand_compile hedited hty⟩

/-- A name that is made for a palette of a type may be taken: here the base type refers to the
palette that is replaced. -/
theorem expand_compile_of_taken_name : ∃ (table : Table) (ty : TableType),
    Table.read "pages" (.object [
      ("columns", .object [("a", .object []), ("b", .object []), ("c", .object [])]),
      ("palettes", .object [("p", .object [("showitem", .string "a,b")]),
        ("1-p", .object [("showitem", .string "c")])]),
      ("types", .object [
        ("0", .object [("showitem", .string "--palette--;;p,a,--palette--;;1-p")]),
        ("1", .object [("showitem", .string "--palette--;;p")])])]) ⟨"general", none, true⟩ =
      .ok table ∧ table.Opened ∧ table.type? "0" = some ty ∧
    (Layout.ofDocument table.compile "0").expand ≠ ty.tree.layout.expand := by
  have hex := exists_of_check (x := Table.read "pages" (.object [
      ("columns", .object [("a", .object []), ("b", .object []), ("c", .object [])]),
      ("palettes", .object [("p", .object [("showitem", .string "a,b")]),
        ("1-p", .object [("showitem", .string "c")])]),
      ("types", .object [
        ("0", .object [("showitem", .string "--palette--;;p,a,--palette--;;1-p")]),
        ("1", .object [("showitem", .string "--palette--;;p")])])]) ⟨"general", none, true⟩)
    (p := fun table : Table => decide (∀ key ∈ table.typeOrder, Text.Plain key) &&
      (table.type? "0").any fun ty : TableType =>
        decide ((Layout.ofDocument table.compile "0").expand ≠ ty.tree.layout.expand))
    (by decide +kernel)
  obtain ⟨table, hread, h⟩ := hex
  rw [Bool.and_eq_true, Option.any_eq_true] at h
  obtain ⟨hkeys, ty, hty, hne⟩ := h
  refine ⟨table, ty, hread, .read ?_ ?_ hread (of_decide_eq_true hkeys), hty,
    of_decide_eq_true hne⟩
  · simp [Value.proper_object_iff, Entries.Distinct, Entries.names, Value.Proper.string]
  · decide +kernel

end Table

end FormLayout
