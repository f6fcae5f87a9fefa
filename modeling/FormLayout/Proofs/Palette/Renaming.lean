import FormLayout.Proofs.Palette.Fold
/-!
Renaming the references of any show item, blanks and all: what it reads as afterwards is what it read
as before, with the references of its items renamed.
-/

namespace FormLayout
set_option autoImplicit true

namespace Text

theorem trimStart_append_blank (h : ∀ c ∈ before, isBlank c = true) (cs : List Char) :
    trimStart (before ++ cs) = trimStart cs := List.dropWhile_append_of_pos h

theorem trimEnd_append_blank (h : ∀ c ∈ after, isBlank c = true) (cs : List Char) :
    trimEnd (cs ++ after) = trimEnd cs := by
  have hr : ∀ c ∈ after.reverse, isBlank c = true := fun c hc => h c (List.mem_reverse.1 hc)
  rw [trimEnd, trimEnd, List.reverse_append, List.dropWhile_append_of_pos hr]

/-- Blanks around a text do not matter to trimming. -/
theorem trimChars_surround (hb : ∀ c ∈ before, isBlank c = true)
    (ha : ∀ c ∈ after, isBlank c = true) (cs : List Char) :
    trimChars (before ++ cs ++ after) = trimChars cs := by
  rw [trimChars, trimChars, List.append_assoc, trimStart_append_blank hb, trimStart, trimStart,
    List.dropWhile_append]
  split
  · next hcs => rw [List.isEmpty_iff.1 hcs, List.dropWhile_eq_nil_iff.2 ha]
  · exact trimEnd_append_blank ha _

theorem exists_surround (cs : List Char) : ∃ before after, (∀ c ∈ before, isBlank c = true) ∧
    (∀ c ∈ after, isBlank c = true) ∧ before ++ trimChars cs ++ after = cs := by
  have hstart := List.takeWhile_append_dropWhile (p := isBlank) (l := cs)
  have hend := congrArg List.reverse
    (List.takeWhile_append_dropWhile (p := isBlank) (l := (trimStart cs).reverse))
  rw [List.reverse_append, List.reverse_reverse] at hend
  apply Exists.intro (cs.takeWhile isBlank)
  apply Exists.intro ((trimStart cs).reverse.takeWhile isBlank).reverse
  constructor
  · exact fun c => List.mem_takeWhile_imp
  constructor
  · exact fun c hc => List.mem_takeWhile_imp (List.mem_reverse.1 hc)
  · rw [List.append_assoc]
    exact (congrArg _ hend).trans hstart

theorem intercalate_concat_append (sep : Char) (init : List (List Char)) (last after : List Char) :
    [sep].intercalate (init ++ [last ++ after]) = [sep].intercalate (init ++ [last]) ++ after := by
  induction init with
  | nil => simp
  | cons p init ih =>
    cases init with
    | nil => simp [List.intercalate_cons_cons]
    | cons q init =>
      rw [List.cons_append, List.cons_append] at ih
      rw [List.cons_append, List.cons_append, List.intercalate_cons_cons, ih, List.cons_append,
        List.cons_append, List.intercalate_cons_cons, ← List.append_assoc]

variable {sep : Char}

theorem map_trim_pieces_append_left (hs : isBlank sep = false)
    (hb : ∀ c ∈ before, isBlank c = true) (cs : List Char) :
    (pieces sep (before ++ cs)).map trimChars = (pieces sep cs).map trimChars := by
  have hcs := intercalate_pieces sep cs
  have hp : ∀ p ∈ pieces sep cs, sep ∉ p := fun p hm => not_mem_of_mem_pieces hm
  cases h : pieces sep cs with
  | nil => exact absurd h (pieces_ne_nil sep cs)
  | cons p ps =>
    rw [h] at hcs hp
    rw [List.forall_mem_cons] at hp
    have hnot : sep ∉ before ++ p := by
      intro hm
      rcases List.mem_append.1 hm with hm | hm
      · exact Bool.false_ne_true (hs.symm.trans (hb sep hm))
      · exact hp.1 hm
    have he : before ++ cs = [sep].intercalate ((before ++ p) :: ps) := by
      rw [← hcs]
      cases ps <;> simp [List.intercalate_cons_cons]
    have htrim := trimChars_surround hb (List.forall_mem_nil _) p
    rw [List.append_nil] at htrim
    rw [he, pieces_intercalate (List.cons_ne_nil _ _) (List.forall_mem_cons.2 ⟨hnot, hp.2⟩),
      List.map_cons, List.map_cons, htrim]

theorem map_trim_pieces_append_right (hs : isBlank sep = false)
    (ha : ∀ c ∈ after, isBlank c = true) (cs : List Char) :
    (pieces sep (cs ++ after)).map trimChars = (pieces sep cs).map trimChars := by
  have hcs := intercalate_pieces sep cs
  have hp : ∀ p ∈ pieces sep cs, sep ∉ p := fun p hm => not_mem_of_mem_pieces hm
  rcases List.eq_nil_or_concat' (pieces sep cs) with h | ⟨init, last, h⟩
  · exact absurd h (pieces_ne_nil sep cs)
  · rw [h] at hcs hp
    have hpieces : ∀ p ∈ init ++ [last ++ after], sep ∉ p := by
      intro p hm
      rcases List.mem_append.1 hm with hm | hm
      · exact hp p (List.mem_append_left _ hm)
      · rw [List.mem_singleton.1 hm, List.mem_append, not_or]
        exact ⟨hp last (by simp), fun hm => Bool.false_ne_true (hs.symm.trans (ha sep hm))⟩
    have htrim := trimChars_surround (List.forall_mem_nil _) ha last
    rw [List.nil_append] at htrim
    have he : cs ++ after = [sep].intercalate (init ++ [last ++ after]) := by
      rw [intercalate_concat_append, hcs]
    rw [he, pieces_intercalate (by simp) hpieces, h, List.map_append, List.map_append,
      List.map_singleton, List.map_singleton, htrim]

/-- Trimming a text before it is split changes nothing once the pieces are trimmed. -/
theorem map_trim_pieces_trimChars (hs : isBlank sep = false) (cs : List Char) :
    (pieces sep (trimChars cs)).map trimChars = (pieces sep cs).map trimChars := by
  obtain ⟨before, after, hb, ha, he⟩ := exists_surround cs
  conv_rhs => rw [← he]
  rw [map_trim_pieces_append_right hs ha, map_trim_pieces_append_left hs hb]

end Text

open Text

namespace ShowItem

/-- The parts between the semicolons. -/
def parts (segment : List Char) : Item :=
  (pieces ';' segment).map fun part => String.ofList (trimChars part)

theorem parts_eq (segment : List Char) :
    parts segment = ((pieces ';' segment).map trimChars).map String.ofList := by
  rw [parts, List.map_map]
  rfl

theorem parts_trimChars (segment : List Char) : parts (trimChars segment) = parts segment := by
  rw [parts_eq, parts_eq, map_trim_pieces_trimChars (by decide)]

theorem parts_eq_blank_iff (segment : List Char) :
    parts segment = [""] ↔ trimChars segment = [] := by
  rw [← parts_trimChars]
  constructor
  · intro h
    obtain ⟨p, hp, hpe⟩ := List.map_eq_singleton_iff.1 h
    have hi := intercalate_pieces ';' (trimChars segment)
    rw [hp, List.intercalate_singleton] at hi
    rw [hi, trimChars_trimChars] at hpe
    exact String.ofList_eq_empty_iff.1 hpe
  · intro h
    rw [h]
    rfl

theorem item?_eq (segment : List Char) :
    item? segment = if parts segment = [""] then none else some (parts segment) := by
  rw [item?]
  by_cases h : trimChars segment = []
  · rw [if_pos (List.isEmpty_iff.2 h), if_pos ((parts_eq_blank_iff segment).2 h)]
  · rw [if_neg (mt List.isEmpty_iff.1 h), if_neg (mt (parts_eq_blank_iff segment).1 h),
      ← parts_trimChars]
    rfl

end ShowItem

theorem Item.rename_eq_blank_iff {item : Item} :
    item.rename name other = [""] ↔ item = [""] := by
  rw [rename]
  split
  · next h =>
    have hblank : Item.reference? [""] = none := by simp [reference?]
    constructor <;> intro he
    · rw [← he, reference?_dropLast_append h] at hblank
      cases hblank
    · rw [← he, h] at hblank
      cases hblank
  · rfl

namespace Palette

theorem isSome_swapName? (hb : ∀ c ∈ before, isBlank c = true)
    (ha : ∀ c ∈ after, isBlank c = true) (name other : List Char) :
    ∃ r, swapName? name other (before ++ name ++ after) = some r := by
  induction before with
  | nil =>
    cases h : [] ++ name ++ after with
    | nil =>
      have hn : name = [] := (List.append_eq_nil_iff.1 h).1
      exact ⟨other, by rw [swapName?.eq_def]; exact if_pos hn⟩
    | cons c rest =>
      have htail : after? name (c :: rest) = some after := after?_eq_some_iff.2 h.symm
      rw [swapName?_cons, htail]
      split
      · exact ⟨_, rfl⟩
      · exact ⟨_, if_pos (List.all_eq_true.2 ha)⟩
  | cons c before ih =>
    rw [List.forall_mem_cons] at hb
    obtain ⟨r, hr⟩ := ih hb.2
    exact ⟨c :: r, by rw [List.cons_append, List.cons_append, swapName?_cons, if_pos hb.1, hr]; rfl⟩

theorem swapName?_of_trim {name : List Char} (h : trimChars cs = name) (other : List Char) :
    ∃ before after, (∀ c ∈ before, isBlank c = true) ∧ (∀ c ∈ after, isBlank c = true) ∧
      cs = before ++ name ++ after ∧
      swapName? name other cs = some (before ++ other ++ after) := by
  obtain ⟨before, after, hb, ha, he⟩ := exists_surround cs
  rw [h] at he
  obtain ⟨r, hr⟩ := isSome_swapName? hb ha name other
  rw [he] at hr
  obtain ⟨before, after, hblank, hcs, rfl⟩ := swapName?_cases hr
  rw [List.forall_mem_append] at hblank
  exact ⟨before, after, hblank.1, hblank.2, hcs, hr⟩

theorem trim_of_swapName? {name : List Char} (hn : Trimmed name)
    (h : swapName? name other cs = some r) : trimChars cs = name := by
  obtain ⟨before, after, hb, rfl, _⟩ := swapName?_cases h
  rw [List.forall_mem_append] at hb
  rw [trimChars_surround hb.1 hb.2, hn.trim_eq]

theorem swapReference?_concat {name : List Char} (h : trimChars last = name) (other : List Char)
    (init : List (List Char)) : ∃ before after, (∀ c ∈ before, isBlank c = true) ∧
      (∀ c ∈ after, isBlank c = true) ∧ last = before ++ name ++ after ∧
      swapReference? name other (init ++ [last]) = some (init ++ [before ++ other ++ after]) := by
  obtain ⟨before, after, hb, ha, hlast, hs⟩ := swapName?_of_trim h other
  refine ⟨before, after, hb, ha, hlast, ?_⟩
  induction init with
  | nil =>
    rw [List.nil_append, swapReference?, swapReference?, List.intercalate_singleton, hs]
    rfl
  | cons part init ih => rw [List.cons_append, swapReference?, ih, List.cons_append]

theorem trim_of_swapReference? {name : List Char} (hn : Trimmed name) (hsemi : ';' ∉ name)
    (h : swapReference? name other parts = some r) : parts.getLast?.map trimChars = some name := by
  induction parts generalizing r with
  | nil => cases h
  | cons part rest ih =>
    rw [swapReference?] at h
    cases rest with
    | nil =>
      obtain ⟨s, hs, _⟩ := Option.map_eq_some_iff.1 h
      rw [List.intercalate_singleton] at hs
      rw [List.getLast?_singleton, Option.map_some, trim_of_swapName? hn hs]
    | cons next rest =>
      rw [List.getLast?_cons_cons]
      split at h
      · next hr => exact ih hr
      · -- A semicolon is neither blank nor part of the name.
        obtain ⟨s, hs, _⟩ := Option.map_eq_some_iff.1 h
        obtain ⟨before, after, hb, he, _⟩ := swapName?_cases hs
        have hm : ';' ∈ before ++ name ++ after := by
          rw [← he, List.intercalate_cons_cons]
          simp
        have hmem : ';' ∈ before ++ after := by
          simpa [hsemi] using hm
        exact absurd (hb _ hmem) (by decide)

theorem reference?_parts {segment lead : List Char} {rest : List (List Char)}
    (h : pieces ';' segment = lead :: rest) (name : String) :
    (ShowItem.parts segment).reference? = some name ↔
      isPaletteToken lead = true ∧ rest.getLast?.map trimChars = some name.toList := by
  have htoken : isPaletteToken lead = isPaletteToken (String.ofList (trimChars lead)).toList := by
    rw [String.toList_ofList, isPaletteToken, isPaletteToken, trimChars_trimChars]
  have hlast : (rest.map fun part => String.ofList (trimChars part)).getLast? = some name ↔
      rest.getLast?.map trimChars = some name.toList := by
    rw [List.getLast?_map]
    cases rest.getLast? with
    | none => simp
    | some last => simp [← String.toList_inj]
  rw [Item.reference?_eq_some_iff, ShowItem.parts, h, List.map_cons, List.drop_one, List.tail_cons,
    hlast, htoken, isPaletteToken_iff, Item.kind, Item.first, List.headD_cons]
  cases SpecialToken.ofPart? (String.ofList (trimChars lead)) <;> simp

/-- Only the last part of a palette item changes, and only if it is the name. -/
theorem renameSegment_cases {name segment : List Char} (hn : Trimmed name) (hsemi : ';' ∉ name)
    (other : List Char) (h : pieces ';' segment = lead :: rest) :
    (∃ init last before after, isPaletteToken lead = true ∧ rest = init ++ [last] ∧
        last = before ++ name ++ after ∧ (∀ c ∈ before, isBlank c = true) ∧
        (∀ c ∈ after, isBlank c = true) ∧ renameSegment name other segment =
          [';'].intercalate (lead :: (init ++ [before ++ other ++ after]))) ∨
      ¬(isPaletteToken lead = true ∧ rest.getLast?.map trimChars = some name) ∧
        renameSegment name other segment = segment := by
  rw [renameSegment, h]
  dsimp only
  by_cases hp : isPaletteToken lead = true
  · by_cases hl : rest.getLast?.map trimChars = some name
    · obtain ⟨last, hlast, ht⟩ := Option.map_eq_some_iff.1 hl
      obtain ⟨init, rfl⟩ := List.getLast?_eq_some_iff.1 hlast
      obtain ⟨before, after, hb, ha, hs, hswap⟩ := swapReference?_concat ht other init
      rw [if_pos hp, hswap]
      exact .inl ⟨init, last, before, after, hp, rfl, hs, hb, ha, rfl⟩
    · have hs : swapReference? name other rest = none := by
        rw [Option.eq_none_iff_forall_ne_some]
        exact fun r hr => hl (trim_of_swapReference? hn hsemi hr)
      rw [if_pos hp, hs]
      exact .inr ⟨fun h => hl h.2, rfl⟩
  · rw [if_neg hp]
    exact .inr ⟨fun h => hp h.1, rfl⟩

variable {name other : String}

theorem not_mem_surround {x : Char} {middle : List Char} (hx : isBlank x = false)
    (hb : ∀ c ∈ before, isBlank c = true) (ha : ∀ c ∈ after, isBlank c = true)
    (hm : x ∉ middle) : x ∉ before ++ middle ++ after := by
  intro h
  have hblank : isBlank x = true := by
    rcases List.mem_append.1 h with h | h
    · exact hb x ((List.mem_append.1 h).resolve_right hm)
    · exact ha x h
  exact Bool.false_ne_true (hx.symm.trans hblank)

theorem comma_not_mem_renameSegment (hname : Text.Plain name) (hother : Text.Plain other)
    {segment : List Char} (hc : ',' ∉ segment) :
    ',' ∉ renameSegment name.toList other.toList segment := by
  have hpieces {p : List Char} (hp : p ∈ pieces ';' segment) : ',' ∉ p :=
    fun hm => hc (mem_of_mem_pieces hp hm)
  cases h : pieces ';' segment with
  | nil => exact absurd h (pieces_ne_nil _ _)
  | cons lead rest =>
    rw [h] at hpieces
    rcases renameSegment_cases hname.trimmed hname.no_semicolon other.toList h with
      ⟨init, last, before, after, _, rfl, _, hb, ha, hr⟩ | ⟨_, hr⟩
    · rw [hr]
      apply not_mem_intercalate (by decide)
      rw [List.forall_mem_cons, List.forall_mem_append]
      exact ⟨hpieces List.mem_cons_self,
        fun p hp => hpieces (List.mem_cons_of_mem _ (List.mem_append_left _ hp)),
        List.forall_mem_singleton.2 (not_mem_surround (by decide) hb ha hother.no_comma)⟩
    · rwa [hr]

theorem parts_renameSegment (hname : Text.Plain name) (hother : Text.Plain other)
    (segment : List Char) : ShowItem.parts (renameSegment name.toList other.toList segment) =
      (ShowItem.parts segment).rename name other := by
  have hpieces {p : List Char} (hp : p ∈ pieces ';' segment) : ';' ∉ p := not_mem_of_mem_pieces hp
  cases h : pieces ';' segment with
  | nil => exact absurd h (pieces_ne_nil _ _)
  | cons lead rest =>
    rcases renameSegment_cases hname.trimmed hname.no_semicolon other.toList h with
      ⟨init, last, before, after, hp, rfl, hlast, hb, ha, hr⟩ | ⟨hnot, hr⟩
    · have ht : trimChars last = name.toList := by
        rw [hlast, trimChars_surround hb ha, hname.trimmed.trim_eq]
      have href := (reference?_parts h name).2 ⟨hp, by simp [ht]⟩
      have hsemi : ∀ p ∈ lead :: (init ++ [before ++ other.toList ++ after]), ';' ∉ p := by
        rw [h] at hpieces
        rw [List.forall_mem_cons, List.forall_mem_append]
        exact ⟨hpieces List.mem_cons_self,
          fun p hp => hpieces (List.mem_cons_of_mem _ (List.mem_append_left _ hp)),
          List.forall_mem_singleton.2 (not_mem_surround (by decide) hb ha hother.no_semicolon)⟩
      rw [Item.rename, if_pos href, hr, ShowItem.parts, ShowItem.parts, h,
        pieces_intercalate (List.cons_ne_nil _ _) hsemi, ← List.cons_append, ← List.cons_append,
        List.map_append, List.map_append, List.map_singleton, List.map_singleton,
        List.dropLast_concat, trimChars_surround hb ha, hother.trimmed.trim_eq,
        String.ofList_toList]
    · rw [hr, Item.rename_of_ne fun href => hnot ((reference?_parts h name).1 href)]

theorem pieces_renameReference (hname : Text.Plain name) (hother : Text.Plain other) (s : String) :
    pieces ',' (renameReference s name other).toList =
      (pieces ',' s.toList).map (renameSegment name.toList other.toList) := by
  rw [renameReference, String.toList_ofList]
  apply pieces_intercalate (by simpa using pieces_ne_nil _ _)
  intro p hp
  obtain ⟨segment, hm, rfl⟩ := List.mem_map.1 hp
  exact comma_not_mem_renameSegment hname hother (not_mem_of_mem_pieces hm)

/-- A renamed show item reads as the items it had, with their references renamed. -/
theorem parse_renameReference (hname : Text.Plain name) (hother : Text.Plain other) (s : String) :
    ShowItem.parse (renameReference s name other) =
      (ShowItem.parse s).map (Item.rename name other) := by
  rw [ShowItem.parse_eq, ShowItem.parse_eq, pieces_renameReference hname hother,
    List.filterMap_map, List.map_filterMap]
  apply List.filterMap_congr
  intro segment _
  rw [Function.comp_apply, ShowItem.item?_eq, ShowItem.item?_eq, parts_renameSegment hname hother]
  by_cases hblank : ShowItem.parts segment = [""]
  · rw [if_pos (Item.rename_eq_blank_iff.2 hblank), if_pos hblank]
    rfl
  · rw [if_neg (mt Item.rename_eq_blank_iff.1 hblank), if_neg hblank]
    rfl

/-- The text between two commas is a palette item whose last part, after the leading one, is the
given name. -/
def RefersTo (name : String) (segment : List Char) : Prop :=
  ∃ item, ShowItem.item? segment = some item ∧ item.kind = .special .palette ∧
    (item.drop 1).getLast? = some name

theorem refersTo_iff {segment : List Char} :
    RefersTo name segment ↔ (ShowItem.parts segment).reference? = some name := by
  simp only [RefersTo, ← Item.reference?_eq_some_iff, ShowItem.item?_eq]
  by_cases hblank : ShowItem.parts segment = [""]
  · simp [hblank, Item.reference?]
  · simp [hblank]

/-- A text between two commas before and after a renaming. Only in an item that refers to the name
there is the other name, with the blanks that were around the old one. -/
inductive Repointed (name other : String) : List Char → List Char → Prop where
  | kept {segment : List Char} : ¬RefersTo name segment → Repointed name other segment segment
  | repointed {front before after : List Char} :
    RefersTo name (front ++ ';' :: (before ++ name.toList ++ after)) →
    (∀ c ∈ before, isBlank c = true) → (∀ c ∈ after, isBlank c = true) →
    Repointed name other (front ++ ';' :: (before ++ name.toList ++ after))
      (front ++ ';' :: (before ++ other.toList ++ after))

theorem repointed_renameSegment (hname : Text.Plain name) (other : String)
    (segment : List Char) :
    Repointed name other segment (renameSegment name.toList other.toList segment) := by
  cases h : pieces ';' segment with
  | nil => exact absurd h (pieces_ne_nil _ _)
  | cons lead rest =>
    have hrefers := refersTo_iff.trans (reference?_parts h name)
    rcases renameSegment_cases hname.trimmed hname.no_semicolon other.toList h with
      ⟨init, last, before, after, hp, rfl, hlast, hb, ha, hr⟩ | ⟨hnot, hr⟩
    · have htrim : trimChars last = name.toList := by
        rw [hlast, trimChars_surround hb ha, hname.trimmed.trim_eq]
      have hrefers := hrefers.2 ⟨hp, by simp [htrim]⟩
      have hsegment := intercalate_pieces ';' segment
      rw [h, ← List.cons_append, intercalate_concat ';' (List.cons_ne_nil _ _), hlast] at hsegment
      rw [hr, ← List.cons_append, intercalate_concat ';' (List.cons_ne_nil _ _)]
      rw [← hsegment] at hrefers ⊢
      exact .repointed hrefers hb ha
    · rw [hr]
      exact .kept (mt hrefers.1 hnot)

/-- Renaming changes the last part of the palette items that refer to the name, between its blanks,
and nothing else: all other texts between commas stay, and so do the parts and the blanks. -/
theorem repointed_renameReference (hname : Text.Plain name) (hother : Text.Plain other)
    (s : String) :
    List.Forall₂ (Repointed name other) (pieces ',' s.toList)
        (pieces ',' (renameReference s name other).toList) ∧
      ShowItem.parse (renameReference s name other) =
        (ShowItem.parse s).map (Item.rename name other) := by
  constructor
  · rw [pieces_renameReference hname hother, List.forall₂_map_right_iff, List.forall₂_same]
    exact fun segment _ => repointed_renameSegment hname other segment
  · exact parse_renameReference hname hother s

/-- Neither a field of this name nor longer names are references. -/
theorem repointed_renameReference_spaced :
    let s := "p, --PALETTE-- ;p;\t p \n,--palette--;p;xp,;--palette--;p,--palette--;p"
    let result := "p, --PALETTE-- ;p;\t 7-p \n,--palette--;p;xp,;--palette--;p,--palette--;7-p"
    Text.Plain "p" ∧ Text.Plain "7-p" ∧ renameReference s "p" "7-p" = result ∧
      List.Forall₂ (Repointed "p" "7-p") (pieces ',' s.toList) (pieces ',' result.toList) ∧
      ShowItem.parse result = (ShowItem.parse s).map (Item.rename "p" "7-p") := by
  intro s result
  have hname : Text.Plain "p" := by decide +kernel
  have hother : Text.Plain "7-p" := by decide +kernel
  have hresult : renameReference s "p" "7-p" = result := by decide +kernel
  have h := repointed_renameReference hname hother s
  rw [hresult] at h
  exact ⟨hname, hother, hresult, h.1, h.2⟩

/-- The show item of a fold reads as the items it had, with their references renamed in turn. -/
theorem parse_showItem_addAll {start own : Palettes} {showItem : String}
    (hk : Text.Plain typeKey) (hown : ∀ name ∈ own.names, Text.Plain name) :
    let f := addAll canonical typeKey ⟨start, showItem, []⟩ own
    ShowItem.parse f.showItem = (ShowItem.parse showItem).map (Item.redirect f.renamed) := by
  induction own using List.reverseRecOn with
  | nil => exact (List.map_id _).symm
  | append_singleton init last ih =>
    have hf := ih fun name hn => hown name (Entries.mem_names_concat.2 (.inl hn))
    have hlast : Text.Plain last.1 := hown _ (Entries.mem_names_concat.2 (.inr rfl))
    dsimp only at hf ⊢
    rw [addAll_concat]
    generalize addAll canonical typeKey ⟨start, showItem, []⟩ init = f at *
    rcases add_cases canonical typeKey f last.1 last.2 with ⟨_, ha⟩ | ⟨_, ha⟩ <;> rw [ha]
    · exact hf
    · dsimp only
      rw [parse_renameReference hlast (plain_renamedId hk hlast), hf, List.map_map]
      apply List.map_congr_left
      intro item _
      exact (Item.redirect_append f.renamed [(last.1, renamedId typeKey last.1)] item).symm

end Palette

end FormLayout
