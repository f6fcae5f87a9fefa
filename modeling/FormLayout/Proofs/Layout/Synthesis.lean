import FormLayout.Proofs.Layout.Columns
import FormLayout.Proofs.Layout.Filling
/-!
The columns after a reading, whether it succeeds or fails. Reading is a loop over the occurrences of
items, and each field that the loop reaches inside a palette gets an empty configuration, unless it is
known.
-/

namespace FormLayout.Layout
set_option autoImplicit true

/-- The fields among some that are known nowhere, in the order in which they occur first. -/
def Surroundings.unknown (around : Surroundings) (columns : Columns) (ids : List String) :
    List String :=
  ids.eraseDups.filter fun id => id ≠ "" && !around.knows columns id

/-- The columns with an empty configuration for each unknown field among some. -/
def Surroundings.extended (around : Surroundings) (columns : Columns) (ids : List String) :
    Columns :=
  columns ++ (around.unknown columns ids).map (·, [])

namespace Step

/-- Takes in one occurrence. The items of a palette occur after it. -/
def take (around : Surroundings) (o : Occurrence) : Step Unit :=
  match o.inside with
  | some name => addPaletteItem around name o.item
  | none =>
    match o.item.reference? with
    | some name => position >>= fun p =>
      put (paletteId name) (.palette name) (o.item.drop 1).dropLast p
    | none => addItem around o.item

/-- The entries that a loop reaches. The one that it fails at is the last. -/
def reached (f : α → Step Unit) : List α → Reading → List α
  | [], _ => []
  | a :: rest, r => a :: match f a r with
    | .ok _ r' => reached f rest r'
    | .error _ _ => []

section

variable {f : α → Step Unit}

theorem reached_prefix (l : List α) (r : Reading) : reached f l r <+: l := by
  induction l generalizing r with
  | nil => exact List.prefix_rfl
  | cons a rest ih =>
    rw [reached, List.prefix_cons_inj]
    cases f a r with
    | ok _ r' => exact ih r'
    | error e r' => exact List.nil_prefix

theorem reached_of_ok {l : List α} (h : l.forM f r = .ok () r') : reached f l r = l := by
  induction l generalizing r with
  | nil => rfl
  | cons a rest ih =>
    rw [forM_cons_eq] at h
    rw [reached]
    cases ha : f a r with
    | ok _ s =>
      rw [ha] at h
      dsimp only
      rw [ih h]
    | error e s =>
      rw [ha] at h
      cases h

/-- A loop that fails goes through all it reaches but the last entry, and fails there. -/
theorem reached_of_error {l : List α} (h : l.forM f r = .error e r') :
    ∃ before a s, reached f l r = before ++ [a] ∧ before.forM f r = .ok () s ∧
      f a s = .error e r' := by
  induction l generalizing r with
  | nil => cases h
  | cons a rest ih =>
    rw [forM_cons_eq] at h
    rw [reached]
    cases ha : f a r with
    | ok _ s =>
      rw [ha] at h
      obtain ⟨before, b, t, hreached, hbefore, hb⟩ := ih h
      refine ⟨a :: before, b, t, congrArg (a :: ·) hreached, ?_, hb⟩
      rw [forM_cons_eq, ha]
      exact hbefore
    | error e s =>
      rw [ha] at h
      cases h
      exact ⟨[], a, r, rfl, rfl, ha⟩

theorem reached_append (l l' : List α) (r : Reading) : reached f (l ++ l') r =
    reached f l r ++ match l.forM f r with
      | .ok _ r' => reached f l' r'
      | .error _ _ => [] := by
  induction l generalizing r with
  | nil => rfl
  | cons a rest ih =>
    rw [List.cons_append, reached, reached, forM_cons_eq]
    cases f a r with
    | ok _ r' =>
      dsimp only
      rw [ih, List.cons_append]
    | error e r' => rfl

theorem forM_append_eq (l l' : List α) (r : Reading) : (l ++ l').forM f r =
    match l.forM f r with
    | .ok _ r' => l'.forM f r'
    | .error e r' => .error e r' := by
  induction l generalizing r with
  | nil => rfl
  | cons a rest ih =>
    rw [List.cons_append, forM_cons_eq, forM_cons_eq]
    cases f a r with
    | ok _ r' => exact ih r'
    | error e r' => rfl

end

end Step

namespace Surroundings

variable {around : Surroundings} {columns : Columns} {ids : List String} {id : String}

theorem mem_unknown : id ∈ around.unknown columns ids ↔
    id ∈ ids ∧ id ≠ "" ∧ around.knows columns id = false := by
  simp [unknown]

theorem get?_extended (around : Surroundings) (columns : Columns) (ids : List String)
    (id : String) : (around.extended columns ids).get? id =
      (columns.get? id).or (if id ∈ around.unknown columns ids then some [] else none) := by
  rw [extended, Entries.get?_append, Entries.get?_map_pair]

/-- After the unknown fields got a configuration they are known. -/
theorem isSome_config?_extended : (around.config? (around.extended columns ids) id).isSome = true ↔
    around.knows columns id = true ∨ id ∈ ids ∧ id ≠ "" := by
  have hmem : id ∈ around.unknown columns ids ↔ id ∈ ids ∧ id ≠ "" ∧
      ¬ around.knows columns id = true := by
    rw [mem_unknown, Bool.not_eq_true]
  rw [← knows_iff, knows, Bool.or_eq_true, Entries.has, get?_extended]
  by_cases hnew : id ∈ around.unknown columns ids
  · rw [if_pos hnew]
    have hid := hmem.1 hnew
    simp [hid.1, hid.2.1]
  · rw [if_neg hnew, Option.or_none]
    have hknown : (columns.get? id).isSome = true ∨ (around.parent.bind (· id)).isSome = true ↔
        around.knows columns id = true := by
      rw [knows, Bool.or_eq_true, Entries.has]
    rw [hknown]
    constructor
    · exact .inl
    · rintro (hk | hid)
      · exact hk
      · by_contra hk
        exact hnew (hmem.2 ⟨hid.1, hid.2, hk⟩)

theorem get?_of_config?_eq_none (h : around.config? columns id = none) :
    columns.get? id = none := by
  rw [← Entries.has_eq_false_iff, Bool.eq_false_iff]
  intro hhas
  have hknown : around.knows columns id = true := by
    rw [knows, hhas, Bool.true_or]
  rw [knows_iff, h] at hknown
  cases hknown

/-- One more field, which is put in if it is unknown. -/
theorem extended_concat (around : Surroundings) (columns : Columns) (ids : List String)
    (id : String) : around.extended columns (ids ++ [id]) =
      if id ≠ "" ∧ around.config? (around.extended columns ids) id = none then
        (around.extended columns ids).put id []
      else around.extended columns ids := by
  -- Known at the start, or since it occurred before.
  have hnew : id ≠ "" ∧ around.config? (around.extended columns ids) id = none ↔
      id ∉ ids ∧ id ≠ "" ∧ ¬ around.knows columns id = true := by
    rw [← Option.not_isSome_iff_eq_none, isSome_config?_extended]
    tauto
  have hunknown : around.unknown columns (ids ++ [id]) = around.unknown columns ids ++
      if id ∉ ids ∧ id ≠ "" ∧ ¬ around.knows columns id = true then [id] else [] := by
    rw [unknown, List.eraseDups_append, List.filter_append, ← unknown]
    congr 1
    by_cases hid : id ∈ ids
    · simp [List.removeAll, hid]
    · by_cases hne : id = "" <;> by_cases hk : around.knows columns id = true <;>
        simp [List.removeAll, List.eraseDups_cons, hid, hne, hk]
  rw [extended, hunknown]
  by_cases h : id ≠ "" ∧ around.config? (around.extended columns ids) id = none
  · -- A new name goes to the end.
    rw [if_pos h, if_pos (hnew.1 h), Entries.put_eq_concat (get?_of_config?_eq_none h.2), extended,
      List.map_append, List.append_assoc]
    rfl
  · rw [if_neg h, if_neg fun h' => h (hnew.2 h'), List.append_nil, extended]

end Surroundings

namespace Step

open Reading

variable {around : Surroundings} {columns : Columns} {seen placed : List String}
  {ps : List Placement} {r : Reading}

/-- After a step the columns are the given ones, also if it fails. -/
def Leaves (s : Step α) (r : Reading) (columns : Columns) : Prop :=
  s.Ends r (fun r' => r'.columns = columns) fun r' => r'.columns = columns

theorem leaves_put (hc : r.columns = c) (id : String) (content : Content) (slots : Slots)
    (p : Position) : (put id content slots p).Leaves r c :=
  keeps_put (P := (· = c)) id content slots p r hc

theorem leaves_lineBreak (hc : r.columns = c) (p : Position) : (lineBreak p).Leaves r c :=
  keeps_lineBreak (P := (· = c)) p r hc

theorem leaves_addField (hr : ∀ {id}, r.tree.kind? id = some .field →
    (around.config? r.columns id).isSome = true) (inPalette : Bool) (id : String) (slots : Slots)
    (p : Position) : (addField around inPalette id slots p).Leaves r
      (if inPalette = true ∧ id ≠ "" ∧ around.config? r.columns id = none then r.columns.put id []
        else r.columns) := by
  rw [Leaves, Ends, addField_eq]
  by_cases hid : id = ""
  · rw [if_pos hid]
    exact (if_neg fun h => h.2.1 hid).symm
  rw [if_neg hid]
  by_cases hfield : (r.tree.field? id).isSome = true
  · -- What the tree has is known, so nothing is put in for a field that is placed again.
    have hknown := hr (FormTree.field?_isSome_iff.1 hfield)
    rw [if_pos hfield]
    exact leaves_put (if_neg fun h => by simp [h.2.2] at hknown).symm _ _ _ _
  rw [if_neg hfield]
  have hask := columns_ask r around id
  cases hc : around.config? r.columns id with
  | some config =>
    apply leaves_put
    exact hask.trans (if_neg fun h => Option.some_ne_none config h.2.2).symm
  | none =>
    cases inPalette with
    | false => exact hask.trans (if_neg fun h => Bool.false_ne_true h.1).symm
    | true =>
      apply leaves_put
      exact (congrArg (Entries.put · id []) hask).trans (if_pos ⟨rfl, hid, rfl⟩).symm

theorem leaves_addPaletteItem (hr : r.Laid around columns seen placed ps)
    (hc : r.columns = around.extended columns placed) (name : String) (item : Item) :
    (addPaletteItem around name item).Leaves r
      (around.extended columns (placed ++ Occurrence.fieldsInside ⟨some name, item⟩)) := by
  cases hk : item.kind with
  | field id =>
    have hids : Occurrence.fieldsInside ⟨some name, item⟩ = [id] := by
      rw [Occurrence.fieldsInside, Item.fieldIds, hk]
      rfl
    have hadd := leaves_addField hr.field_known true id (item.drop 1) (.bottom (paletteId name))
    simp only [hc, true_and, ← Surroundings.extended_concat] at hadd
    rw [addPaletteItem_field around name hk, hids]
    exact hadd
  | special token =>
    rw [Occurrence.fieldsInside_of_special (o := ⟨some name, item⟩) hk, List.append_nil]
    cases token with
    | lineBreak =>
      rw [addPaletteItem_lineBreak around name hk]
      exact leaves_lineBreak hc _
    | _ =>
      rw [addPaletteItem, hk]
      exact hc

theorem leaves_addItem (hr : r.Laid around columns seen placed ps)
    (hc : r.columns = around.extended columns placed) {item : Item}
    (href : item.reference? = none) :
    (addItem around item).Leaves r (around.extended columns placed) := by
  cases hk : item.kind with
  | field id =>
    have hadd := leaves_addField hr.field_known false id (item.drop 1) r.position
    simp only [Bool.false_eq_true, false_and, if_false, hc] at hadd
    rw [Leaves, Ends, addItem_field around hk]
    exact hadd
  | special token =>
    cases token with
    | lineBreak =>
      rw [Leaves, Ends, addItem_lineBreak around hk]
      exact leaves_lineBreak hc _
    | tab =>
      rw [addItem_tab around hk]
      exact keeps_openTab (P := (· = around.extended columns placed)) item r hc
    | palette =>
      have hskip := addPalette_eq_reference around hk r
      rw [href] at hskip
      rw [addItem_palette around hk]
      exact .of_ok hskip hc
    | unknown token =>
      rw [addItem, hk]
      exact hc

/-- Taking in an occurrence extends the columns by the field that it places inside a palette. -/
theorem leaves_take (hr : r.Laid around columns seen placed ps)
    (hc : r.columns = around.extended columns placed) (o : Occurrence) :
    (take around o).Leaves r (around.extended columns (placed ++ o.fieldsInside)) := by
  obtain ⟨inside, item⟩ := o
  cases inside with
  | some name => exact leaves_addPaletteItem hr hc name item
  | none =>
    have hids : Occurrence.fieldsInside ⟨none, item⟩ = [] := if_neg (by simp)
    rw [hids, List.append_nil, take]
    dsimp only
    cases href : item.reference? with
    | some name =>
      dsimp only
      rw [Leaves, Ends, position_bind]
      exact leaves_put hc _ _ _ _
    | none => exact leaves_addItem hr hc href

/-- A step that is the loop over some occurrences, and that extends the columns by the fields which
the loop reaches inside palettes. -/
def Follows (around : Surroundings) (columns : Columns) (placed : List String)
    (os : List Occurrence) (s : Step Unit) (r : Reading) : Prop :=
  s r = os.forM (take around) r ∧ s.Leaves r (around.extended columns
    (placed ++ (reached (take around) os r).flatMap Occurrence.fieldsInside))

namespace Follows

variable {os os' : List Occurrence} {s : Step Unit}

theorem nil (hs : s r = .ok () r) (hc : r.columns = around.extended columns placed) :
    Follows around columns placed [] s r := by
  refine ⟨hs, .of_ok hs ?_⟩
  rw [reached, List.flatMap_nil, List.append_nil]
  exact hc

theorem single {o : Occurrence} (hs : s r = take around o r)
    (hr : r.Laid around columns seen placed ps) (hc : r.columns = around.extended columns placed) :
    Follows around columns placed [o] s r := by
  have hreached : reached (take around) [o] r = [o] := by
    rw [reached]
    cases take around o r <;> rfl
  constructor
  · rw [hs, forM_cons_eq]
    cases take around o r <;> rfl
  · rw [Leaves, Ends, hs, hreached, List.flatMap_singleton]
    exact leaves_take hr hc o

theorem congr {s' : Step Unit} (he : s r = s' r) (h : Follows around columns placed os s' r) :
    Follows around columns placed os s r := by
  rwa [Follows, Leaves, Ends, he]

/-- After a step that went through, its loop reached all its occurrences. -/
theorem columns_of_ok (h : Follows around columns placed os s r) (hs : s r = .ok a r') :
    r'.columns = around.extended columns (placed ++ os.flatMap Occurrence.fieldsInside) := by
  have hloop := reached_of_ok (h.1.symm.trans hs)
  have hcolumns := h.2.ok hs
  rwa [hloop] at hcolumns

theorem bind {f : Unit → Step Unit} (h : Follows around columns placed os s r)
    (hf : ∀ a r', s r = .ok a r' → Follows around columns
      (placed ++ os.flatMap Occurrence.fieldsInside) os' (f a) r') :
    Follows around columns placed (os ++ os') (s >>= f) r := by
  obtain ⟨hloop, hleaves⟩ := h
  rw [Follows, Leaves, Ends, bind_eq, forM_append_eq, reached_append, ← hloop]
  cases hs : s r with
  | ok a r' =>
    rw [reached_of_ok (hloop.symm.trans hs), List.flatMap_append, ← List.append_assoc]
    exact hf a r' hs
  | error e r' =>
    rw [List.append_nil]
    exact ⟨rfl, hleaves.error hs⟩

end Follows

theorem addItem_eq_take (around : Surroundings) {item : Item}
    (hk : item.kind ≠ .special .palette) : addItem around item = take around ⟨none, item⟩ := by
  rw [take, Item.reference?_of_kind hk]

/-- No field is placed by an occurrence of a special item. -/
theorem flatMap_fieldsInside {o : Occurrence} (hk : o.item.kind = .special token)
    (placed : List String) : placed ++ [o].flatMap Occurrence.fieldsInside = placed := by
  rw [List.flatMap_singleton, Occurrence.fieldsInside_of_special hk, List.append_nil]

theorem follows_addPaletteItems {name : String} (hname : name ∈ seen) (items : List Item)
    (hr : r.Laid around columns seen placed ps) (ht : 0 < Placement.tabs ps)
    (hc : r.columns = around.extended columns placed) :
    Follows around columns placed (items.map (⟨some name, ·⟩))
      (items.forM (addPaletteItem around name)) r := by
  induction items generalizing placed ps r with
  | nil => exact .nil rfl hc
  | cons item rest ih =>
    have hfirst : Follows around columns placed [⟨some name, item⟩] (addPaletteItem around name item)
        r := .single rfl hr hc
    have hrest (r' : Reading) (hs : addPaletteItem around name item r = .ok () r') :=
      ih ((reads_addPaletteItem hname item hr ht).ok hs) (tabs_foldl_place_pos ht _)
        (hfirst.columns_of_ok hs)
    exact hfirst.bind fun _ => hrest

/-- A palette comes with its items, unless it is unknown or was seen before. -/
theorem follows_addPalette {item : Item} (hk : item.kind = .special .palette)
    (hr : r.Laid around columns seen placed ps) (ht : 0 < Placement.tabs ps)
    (hc : r.columns = around.extended columns placed) :
    Follows around columns placed (occurrencesOf around.palettes seen item)
      (addPalette around item) r := by
  have hadd := addPalette_eq_reference around hk r
  rw [occurrencesOf, if_pos hk, declared?]
  cases href : item.reference? with
  | none =>
    rw [href] at hadd
    exact .nil hadd hc
  | some name =>
    rw [href] at hadd
    dsimp only at hadd
    rw [hr.isSome_palette?] at hadd
    rw [Option.filter_some]
    by_cases hnew : around.palettes.has name = true ∧ seen.contains name = false
    · rw [if_pos hnew] at hadd
      rw [if_pos (by simpa using hnew)]
      -- The palette is the first occurrence, and the loop over its items the others.
      have htake : take around ⟨none, item⟩ r =
          put (paletteId name) (.palette name) (item.drop 1).dropLast r.position r := by
        rw [take, href]
        exact position_bind _ r
      have hfirst : Follows around columns placed [⟨none, item⟩]
          (put (paletteId name) (.palette name) (item.drop 1).dropLast r.position) r :=
        .single htake.symm hr hc
      have hplaced : placed ++ [⟨none, item⟩].flatMap Occurrence.fieldsInside = placed :=
        flatMap_fieldsInside (o := ⟨none, item⟩) hk placed
      have hitems (r' : Reading) (hs : put (paletteId name) (.palette name)
          (item.drop 1).dropLast r.position r = .ok () r') :
          Follows around columns (placed ++ [⟨none, item⟩].flatMap Occurrence.fieldsInside)
            ((itemsOf around.palettes name).map (⟨some name, ·⟩))
            ((itemsOf around.palettes name).forM (addPaletteItem around name)) r' := by
        have hcolumns := hfirst.columns_of_ok hs
        rw [hplaced] at hcolumns ⊢
        exact follows_addPaletteItems List.mem_cons_self _
          ((laid_declare hr ht href (by simpa using hnew.2)).ok hs)
          (Nat.lt_of_lt_of_le ht (tabs_le_place ps ⟨none, item⟩)) hcolumns
      exact .congr hadd (hfirst.bind fun _ => hitems)
    · rw [if_neg hnew] at hadd
      rw [if_neg (by simpa using hnew)]
      exact .nil hadd hc

theorem follows_addItem (item : Item) (hr : r.Laid around columns seen placed ps)
    (ht : 0 < Placement.tabs ps) (hc : r.columns = around.extended columns placed) :
    Follows around columns placed (occurrencesOf around.palettes seen item) (addItem around item)
      r := by
  by_cases hpalette : item.kind = .special .palette
  · rw [addItem_palette around hpalette]
    exact follows_addPalette hpalette hr ht hc
  · rw [occurrencesOf, if_neg hpalette]
    exact .single (congrFun (addItem_eq_take around hpalette) r) hr hc

theorem follows_takeIn (items : List Item) (hr : r.Laid around columns seen placed ps)
    (ht : 0 < Placement.tabs ps) (hc : r.columns = around.extended columns placed) :
    Follows around columns placed (occurrences around.palettes seen items) (takeIn around items)
      r := by
  induction items generalizing seen placed ps r with
  | nil =>
    apply Follows.nil _ hc
    change ensureTab r = _
    rw [ensureTab_eq, FormTree.ensureTab_of_ne_nil (hr.tabs_ne_nil ht)]
  | cons item rest ih =>
    have hfirst := follows_addItem item hr ht hc
    rw [takeIn_cons]
    apply hfirst.bind
    intro _ r' hs
    exact ih ((reads_addItem item hr ht).ok hs) (tabs_foldl_place_pos ht _)
      (hfirst.columns_of_ok hs)

end Step

/-- The state in which the first item is taken in. -/
def Reading.start (items : List Item) (tree : FormTree) (columns : Columns) : Reading :=
  ⟨if startsWithTab items then tree.reset else tree.reset.ensureTab.1, columns, none, []⟩

namespace Step

variable {around : Surroundings} {columns : Columns}

theorem fill_eq_takeIn (around : Surroundings) (items : List Item) (tree : FormTree)
    (columns : Columns) : fill around items ⟨tree, columns, none, []⟩ =
      takeIn around items (Reading.start items tree columns) := by
  rw [fill_eq, Reading.start]
  split
  · rfl
  · rfl

/-- Reading is the loop over the occurrences. -/
theorem follows_fill (around : Surroundings) (items : List Item) (tree : FormTree)
    (columns : Columns) : Follows around columns [] (occurrences around.palettes [] items)
      (takeIn around items) (Reading.start items tree columns) := by
  let r : Reading := ⟨tree, columns, none, []⟩
  have hreset : { r with tree := r.tree.reset }.Laid around columns [] [] [] :=
    laid_reset around rfl rfl
  have hc : columns = around.extended columns [] := (List.append_nil columns).symm
  cases hfirst : startsWithTab items with
  | true =>
    have hstart : Reading.start items tree columns = { r with tree := r.tree.reset } := by
      rw [Reading.start, if_pos hfirst]
    rw [hstart]
    cases items with
    | nil => cases hfirst
    | cons item rest =>
      have hk : item.kind = .special .tab := of_decide_eq_true hfirst
      have hpalette : item.kind ≠ .special .palette := by simp [hk]
      have hopen := laid_openTab hreset item
      rw [← addItem_tab around hk] at hopen
      have htab : Follows around columns [] [⟨none, item⟩] (addItem around item)
          { r with tree := r.tree.reset } :=
        .single (congrFun (addItem_eq_take around hpalette) _) hreset hc
      have hplaced : [] ++ [⟨none, item⟩].flatMap Occurrence.fieldsInside = [] :=
        flatMap_fieldsInside (o := ⟨none, item⟩) hk []
      rw [occurrences_cons hpalette, takeIn_cons]
      apply htab.bind
      intro _ r' hs
      have hcolumns := htab.columns_of_ok hs
      rw [hplaced] at hcolumns ⊢
      exact follows_takeIn rest (hopen.ok hs) Nat.zero_lt_one hcolumns
  | false =>
    have hstart : ensureTab { r with tree := r.tree.reset } =
        .ok () (Reading.start items tree columns) := by
      rw [Reading.start, hfirst]
      rfl
    exact follows_takeIn items ((laid_ensureTab hreset rfl rfl).ok hstart) Nat.zero_lt_one hc

end Step

/-- A known field keeps its configuration when unknown fields get one, and theirs are empty. -/
theorem Surroundings.config?_extended {around : Surroundings} {columns : Columns}
    {ids : List String} {id : String} {config : Fields}
    (h : around.config? (around.extended columns ids) id = some config) :
    config = (around.config? columns id).getD [] := by
  have hget := around.get?_extended columns ids id
  by_cases hnew : id ∈ around.unknown columns ids
  · have hnone : around.config? columns id = none := by
      rw [← Option.not_isSome_iff_eq_none, ← knows_iff, (mem_unknown.1 hnew).2.2]
      exact Bool.false_ne_true
    have hput := around.config?_synthesized hnone
    rw [if_pos hnew, get?_of_config?_eq_none hnone, Option.none_or] at hget
    rw [config?, hget, ← Entries.get?_put_self columns id [], ← config?, hput] at h
    rw [hnone, Option.getD_none, Option.some.inj h]
  · rw [if_neg hnew, Option.or_none] at hget
    rw [config?, hget, ← config?] at h
    rw [h, Option.getD_some]

theorem config?_of_field_read {layout : Layout} {tree : FormTree} {columns : Columns}
    {parent : Option (String → Option Fields)} {id : String} {n : Node}
    (hn : (layout.read tree columns parent).tree.field? id = some n) : ∃ config,
    n.config? = some config ∧ Surroundings.config? ⟨layout.palettes, parent⟩
      (layout.read tree columns parent).columns id = some config := by
  obtain ⟨r, htree, hcolumns, hsound, _⟩ := read_sound layout tree columns parent
  rw [htree] at hn
  rw [hcolumns]
  have hkind := (Option.filter_eq_some_iff.1 hn).2
  rw [decide_eq_true_iff, Node.kind] at hkind
  cases hcontent : n.content with
  | field config =>
    have hc : n.config? = some config := Node.config?_eq_some_iff.2 hcontent
    exact ⟨config, hc, hsound.config?_eq (by rw [hn, Option.bind_some, hc])⟩
  | _ =>
    rw [hcontent] at hkind
    cases hkind

/-- The columns are extended by the fields that reading reaches inside palettes. -/
theorem columns_read_extended (layout : Layout) (tree : FormTree) (columns : Columns)
    (parent : Option (String → Option Fields)) :
    let around : Surroundings := ⟨layout.palettes, parent⟩
    let items := ShowItem.parse layout.showItem
    (layout.read tree columns parent).columns = around.extended columns
      ((Step.reached (Step.take around) (occurrences layout.palettes [] items)
        (Reading.start items tree columns)).flatMap Occurrence.fieldsInside) := by
  intro around items
  obtain ⟨hloop, hleaves⟩ := Step.follows_fill around items tree columns
  rw [List.nil_append] at hleaves
  rw [read, Step.fill_eq_takeIn around items tree columns]
  cases hs : takeIn around items (Reading.start items tree columns) with
  | ok _ r => exact hleaves.ok hs
  | error e r => exact hleaves.error hs

/-- Only fields of palettes are added to the columns. -/
theorem mem_names_read {layout : Layout} {tree : FormTree} {columns : Columns}
    {parent : Option (String → Option Fields)} {id : String}
    (h : id ∈ (layout.read tree columns parent).columns.names) :
    id ∈ columns.names ∨ id ∈ layout.paletteFields := by
  rw [columns_read_extended, Surroundings.extended, Entries.names, List.map_append,
    List.mem_append] at h
  refine h.imp_right fun h => ?_
  obtain ⟨e, he, rfl⟩ := List.mem_map.1 h
  obtain ⟨x, hx, rfl⟩ := List.mem_map.1 he
  obtain ⟨o, ho, hid⟩ := List.mem_flatMap.1 (Surroundings.mem_unknown.1 hx).1
  exact mem_paletteFields ((Step.reached_prefix _ _).subset ho) hid

/-- Reading adds an empty configuration to the columns for each unknown field that it reaches inside a
palette, in the order in which it reaches them first, also if it fails. It reaches the occurrences of
items up to the one that it fails at. Each field of the tree has the configuration of the parent with
the stored one over it, the one that there is, or an empty one. -/
theorem columns_read_eq (layout : Layout) (tree : FormTree) (columns : Columns)
    (parent : Option (String → Option Fields)) :
    let around : Surroundings := ⟨layout.palettes, parent⟩
    let items := ShowItem.parse layout.showItem
    let all := occurrences layout.palettes [] items
    let start := Reading.start items tree columns
    let seen := Step.reached (Step.take around) all start
    let filled := layout.read tree columns parent
    filled.columns =
      columns ++ (around.unknown columns (seen.flatMap Occurrence.fieldsInside)).map (·, []) ∧
    (filled.failure = none → seen = all ∧
      ∃ r, all.forM (Step.take around) start = .ok () r ∧ filled.tree = r.tree) ∧
    (∀ e, filled.failure = some e → seen <+: all ∧
      ∃ before o r r', seen = before ++ [o] ∧ before.forM (Step.take around) start = .ok () r ∧
        Step.take around o r = .error e r' ∧ filled.tree = r'.tree) ∧
    ∀ id n, filled.tree.field? id = some n →
      n.config? = some ((around.config? columns id).getD []) := by
  intro around items all start seen filled
  have hloop := (Step.follows_fill around items tree columns).1
  have hfill := Step.fill_eq_takeIn around items tree columns
  have hcolumns := columns_read_extended layout tree columns parent
  refine ⟨hcolumns, ?_, ?_, ?_⟩
  · dsimp only [filled]
    rw [read, hfill, hloop]
    cases hs : all.forM (Step.take around) start with
    | ok _ r => exact fun _ => ⟨Step.reached_of_ok hs, r, rfl, rfl⟩
    | error e r =>
      intro h
      cases h
  · dsimp only [filled]
    rw [read, hfill, hloop]
    cases hs : all.forM (Step.take around) start with
    | ok _ r =>
      intro e h
      cases h
    | error e r =>
      rintro _ ⟨⟩
      obtain ⟨before, o, s, hseen, hbefore, ho⟩ := Step.reached_of_error hs
      exact ⟨Step.reached_prefix all start, before, o, s, r, hseen, hbefore, ho, rfl⟩
  · intro id n hn
    obtain ⟨config, hc, hknown⟩ := config?_of_field_read hn
    rw [hcolumns] at hknown
    rw [hc, Surroundings.config?_extended hknown]

example : (Layout.read ⟨"b,--palette--;;p", [("p", "x,a,x,,--foo--,y")]⟩ (.empty "general")
    [("a", [])] none).columns.names = ["a", "x"] := by
  decide +kernel

end FormLayout.Layout
