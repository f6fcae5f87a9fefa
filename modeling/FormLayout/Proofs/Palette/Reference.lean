import FormLayout.Palette.Reference
import FormLayout.Proofs.Layout.Items
/-!
Renaming the references of a written show item is renaming those of its items.
-/

namespace FormLayout
set_option autoImplicit true
open Text

/-- The item with its reference pointed at another palette, if it refers to the given one. -/
def Item.rename (name other : String) (item : Item) : Item :=
  if item.reference? = some name then item.dropLast ++ [other] else item

theorem Item.reference?_eq_some_iff {item : Item} : item.reference? = some name ↔
    item.kind = .special .palette ∧ (item.drop 1).getLast? = some name := by
  match item with
  | [] => simp [reference?]
  | [_] => simp [reference?]
  | lead :: part :: rest =>
    have hl : (part :: rest).getLast? = some ((part :: rest).getLastD "") := by
      rw [List.getLastD_eq_getLast?, List.getLast?_eq_some_getLast (List.cons_ne_nil _ _)]
      rfl
    by_cases hk : kind (lead :: part :: rest) = .special .palette
    · rw [reference?_cons hk, List.drop_one, List.tail_cons, hl, and_iff_right hk]
    · simp [reference?_of_kind hk, hk]

theorem Item.Plain.reference? {item : Item} (h : item.Plain) (hr : item.reference? = some name) :
    Text.Plain name :=
  h.parts _ (List.mem_of_mem_drop (List.mem_of_getLast? (reference?_eq_some_iff.1 hr).2))

theorem Item.reference?_dropLast_append {item : Item} (h : item.reference? = some name)
    (other : String) : Item.reference? (item.dropLast ++ [other]) = some other := by
  obtain ⟨hk, hl⟩ := reference?_eq_some_iff.1 h
  match item with
  | [] => cases hl
  | [_] => cases hl
  | lead :: part :: rest =>
    rw [List.dropLast_cons_of_ne_nil (List.cons_ne_nil _ _), List.cons_append,
      reference?_eq_some_iff]
    exact ⟨hk, List.getLast?_concat⟩

theorem Item.dropLast_append_reference? {item : Item} (h : item.reference? = some name) :
    item.dropLast ++ [name] = item := by
  obtain ⟨_, hl⟩ := reference?_eq_some_iff.1 h
  cases item with
  | nil => cases hl
  | cons lead rest =>
    rw [List.drop_one, List.tail_cons] at hl
    have hn : rest ≠ [] := by
      rintro rfl
      cases hl
    rw [List.dropLast_cons_of_ne_nil hn, List.cons_append]
    rw [List.getLast?_eq_some_getLast hn, Option.some_inj] at hl
    rw [← hl, List.dropLast_append_getLast hn]

theorem Item.rename_of_ne {item : Item} (h : item.reference? ≠ some name) :
    item.rename name other = item := if_neg h

/-- Only the reference of an item changes. -/
theorem Item.rename_eq (name other : String) (item : Item) : item.rename name other =
    match item.reference? with
    | some x => item.dropLast ++ [if x = name then other else x]
    | none => item := by
  rw [rename]
  cases h : item.reference? with
  | none => rfl
  | some x =>
    by_cases hx : x = name
    · simp only [hx, if_true]
    · simp only [if_neg hx, dropLast_append_reference? h, Option.some_inj]

theorem Item.reference?_rename (name other : String) (item : Item) :
    (item.rename name other).reference? =
      item.reference?.map fun x => if x = name then other else x := by
  rw [rename_eq]
  cases h : item.reference? with
  | none => rw [Option.map_none, h]
  | some x => rw [Option.map_some, reference?_dropLast_append h]

namespace SpecialToken

theorem ofPart?_eq_some_iff : ofPart? part = some token ↔
    ∃ inner, trimChars part.toList = '-' :: '-' :: (inner ++ ['-', '-']) ∧
      ofName (String.ofList inner) = token := by
  rw [ofPart?]
  constructor
  · intro h
    split at h
    · next rest hcs =>
      split at h
      · next inner hr =>
        refine ⟨inner.reverse, ?_, Option.some_inj.1 h⟩
        rw [hcs, ← List.reverse_reverse rest, hr]
        simp
      · cases h
    · cases h
  · rintro ⟨inner, hcs, rfl⟩
    have hr : (inner ++ ['-', '-']).reverse = '-' :: '-' :: inner.reverse := by simp
    rw [hcs]
    simp only [hr, List.reverse_reverse]

theorem ofName_eq_palette_iff : ofName name = .palette ↔ lower name = "palette" := by
  constructor
  · intro h
    simp only [ofName] at h
    split at h
    · cases h
    · split at h
      · assumption
      · split at h <;> cases h
  · intro h
    simp only [ofName, h]
    simp

end SpecialToken

namespace Palette

theorem toLower_eq_dash {c : Char} (h : c.toLower = '-') : c = '-' := by
  delta Char.toLower at h
  split at h
  · next hc =>
    have hv : c.val.toNat + 32 = 45 := by
      have hle : c.val.toNat ≤ 90 := UInt32.le_iff_toNat_le.1 hc.2
      have hsum : (c.val + 32).toNat = 45 := congrArg (fun c => c.val.toNat) h
      rw [UInt32.toNat_add] at hsum
      have hlt : c.val.toNat + 32 < 2 ^ 32 := by omega
      rwa [UInt32.toNat_ofNat, Nat.mod_eq_of_lt hlt] at hsum
    have hge : 65 ≤ c.val.toNat := UInt32.le_iff_toNat_le.1 hc.1
    omega
  · exact h

/-- The token of palettes, as it is told from the first part of an item. -/
theorem isPaletteToken_iff {part : String} :
    isPaletteToken part.toList = true ↔ SpecialToken.ofPart? part = some .palette := by
  simp only [SpecialToken.ofPart?_eq_some_iff, SpecialToken.ofName_eq_palette_iff, lower,
    String.toList_ofList, isPaletteToken, decide_eq_true_eq]
  generalize trimChars part.toList = cs
  constructor
  · intro h
    obtain ⟨a, cs, rfl, ha, h⟩ := List.map_eq_cons_iff.1 h
    obtain ⟨b, cs, rfl, hb, h⟩ := List.map_eq_cons_iff.1 h
    have hsplit : _ = "palette".toList ++ ['-', '-'] := h
    obtain ⟨inner, dashes, rfl, hinner, h⟩ := List.map_eq_append_iff.1 hsplit
    obtain ⟨c, dashes, rfl, hc, h⟩ := List.map_eq_cons_iff.1 h
    obtain ⟨d, dashes, rfl, hd, h⟩ := List.map_eq_cons_iff.1 h
    refine ⟨inner, ?_, by rw [hinner, String.ofList_toList]⟩
    rw [toLower_eq_dash ha, toLower_eq_dash hb, toLower_eq_dash hc, toLower_eq_dash hd,
      List.map_eq_nil_iff.1 h]
  · rintro ⟨inner, rfl, h⟩
    have hinner : inner.map Char.toLower = "palette".toList := by
      rw [← h, String.toList_ofList]
    simp only [List.map_cons, List.map_append, hinner]
    decide

theorem after?_eq_some_iff : after? b cs = some tail ↔ cs = b ++ tail := by
  induction b generalizing cs with
  | nil => simp [after?, eq_comm]
  | cons c b ih =>
    cases cs with
    | nil => simp [after?]
    | cons d cs =>
      rw [after?]
      split
      · next h => rw [ih, h, List.cons_append, List.cons.injEq, and_iff_right rfl]
      · next h => simp [Ne.symm h]

theorem swapName?_cons (name other : List Char) (c : Char) (rest : List Char) :
    swapName? name other (c :: rest) =
      match if isBlank c then (swapName? name other rest).map (c :: ·) else none with
      | some cs => some cs
      | none =>
        match after? name (c :: rest) with
        | some tail => if tail.all isBlank then some (other ++ tail) else none
        | none => none :=
  swapName?.eq_def name other (c :: rest)

theorem swapName?_cases (h : swapName? name other cs = some r) :
    ∃ before after, (∀ c ∈ before ++ after, isBlank c = true) ∧ cs = before ++ name ++ after ∧
      r = before ++ other ++ after := by
  induction cs generalizing r with
  | nil =>
    rw [swapName?.eq_def] at h
    dsimp only at h
    split at h
    · next hn =>
      cases h
      exact ⟨[], [], by simp, by simp [hn], by simp⟩
    · cases h
  | cons c cs ih =>
    rw [swapName?_cons] at h
    split at h
    · next hs =>
      split at hs
      · next hc =>
        obtain ⟨s, hswap, rfl⟩ := Option.map_eq_some_iff.1 hs
        obtain ⟨before, after, hb, rfl, rfl⟩ := ih hswap
        cases h
        exact ⟨c :: before, after, List.forall_mem_cons.2 ⟨hc, hb⟩, rfl, rfl⟩
      · cases hs
    · split at h
      · next tail ht =>
        split at h
        · next hb =>
          cases h
          exact ⟨[], tail, by simpa using hb, by simpa using after?_eq_some_iff.1 ht, by simp⟩
        · cases h
      · cases h

/-- A text without blank ends holds the name only if it is the name. -/
theorem eq_of_swapName? (h : swapName? name other cs = some r) (hc : Trimmed cs) :
    cs = name := by
  obtain ⟨before, after, hb, rfl, _⟩ := swapName?_cases h
  have hbefore : before = [] := by
    cases before with
    | nil => rfl
    | cons c before =>
      have hblank := hb c List.mem_cons_self
      rw [hc.1 c rfl] at hblank
      cases hblank
  have hafter : after = [] := by
    rcases List.eq_nil_or_concat after with hn | ⟨init, c, rfl⟩
    · exact hn
    · have hblank := hb c (by simp)
      rw [hc.2 c (by simp)] at hblank
      cases hblank
  rw [hbefore, hafter, List.nil_append, List.append_nil]

theorem swapName?_self (hn : Trimmed name) : swapName? name other name = some other := by
  cases name with
  | nil => rfl
  | cons c name =>
    have ha : after? (c :: name) (c :: name) = some [] := after?_eq_some_iff.2 (by simp)
    rw [swapName?_cons, hn.1 c rfl, ha]
    simp

/-- The name stands in the last part, or there is no reference to it. -/
theorem swapReference?_parts {name : List Char} (hname : Trimmed name) (hsemi : ';' ∉ name)
    (h : ∀ p ∈ parts, Trimmed p) : swapReference? name other parts =
      if parts.getLast? = some name then some (parts.dropLast ++ [other]) else none := by
  induction parts with
  | nil => rfl
  | cons part rest ih =>
    rw [swapReference?, ih fun p hp => h p (List.mem_cons_of_mem _ hp)]
    cases rest with
    | nil =>
      rw [List.getLast?_nil, if_neg (by simp), List.getLast?_singleton, List.intercalate_singleton]
      by_cases hp : part = name
      · rw [hp, swapName?_self hname, if_pos rfl]
        rfl
      · have hnone : swapName? name other part = none := by
          rw [Option.eq_none_iff_forall_ne_some]
          exact fun r hr => hp (eq_of_swapName? hr (h part List.mem_cons_self))
        rw [hnone, if_neg (by simpa using hp)]
        rfl
    | cons next rest =>
      rw [List.getLast?_cons_cons]
      by_cases hl : (next :: rest).getLast? = some name
      · rw [if_pos hl, if_pos hl, List.dropLast_cons_of_ne_nil (List.cons_ne_nil _ _),
          List.cons_append]
      · have hnone : swapName? name other ([';'].intercalate (part :: next :: rest)) = none := by
          rw [Option.eq_none_iff_forall_ne_some]
          intro r hr
          -- A semicolon is neither blank nor part of the name.
          obtain ⟨before, after, hb, he, _⟩ := swapName?_cases hr
          have hm : ';' ∈ before ++ name ++ after := by
            rw [← he, List.intercalate_cons_cons]
            simp
          have hmem : ';' ∈ before ++ after := by
            rcases List.mem_append.1 hm with hm | hm
            · exact List.mem_append_left _ ((List.mem_append.1 hm).resolve_right hsemi)
            · exact List.mem_append_right _ hm
          exact absurd (hb _ hmem) (by decide)
        rw [if_neg hl, if_neg hl, hnone]
        rfl

theorem renameSegment_item {item : Item} {name other : String} (hi : item.Plain)
    (hname : Text.Plain name) : renameSegment name.toList other.toList item.text.toList =
      (item.rename name other).text.toList := by
  cases item with
  | nil => exact absurd rfl hi.ne_nil
  | cons lead rest =>
    have htrim : ∀ p ∈ rest.map String.toList, Trimmed p := by
      intro p hp
      obtain ⟨part, hm, rfl⟩ := List.mem_map.1 hp
      exact (hi.parts part (List.mem_cons_of_mem _ hm)).trimmed
    have hlast : (rest.map String.toList).getLast? = some name.toList ↔ rest.getLast? = some name := by
      rw [List.getLast?_map, Option.map_eq_some_iff]
      exact ⟨fun ⟨x, hx, he⟩ => by rw [hx, String.toList_inj.1 he], fun hx => ⟨name, hx, rfl⟩⟩
    have href : Item.reference? (lead :: rest) = some name ↔
        isPaletteToken lead.toList = true ∧ rest.getLast? = some name := by
      rw [Item.reference?_eq_some_iff, isPaletteToken_iff, Item.kind, Item.first, List.headD_cons]
      cases SpecialToken.ofPart? lead <;> simp
    rw [renameSegment, hi.pieces, List.map_cons]
    dsimp only
    rw [swapReference?_parts hname.trimmed hname.no_semicolon htrim]
    by_cases hr : Item.reference? (lead :: rest) = some name
    · obtain ⟨hp, hl⟩ := href.1 hr
      have hne : rest ≠ [] := by
        rintro rfl
        cases hl
      rw [if_pos hp, if_pos (hlast.2 hl)]
      dsimp only
      rw [Item.rename, if_pos hr, Item.toList_text, List.dropLast_cons_of_ne_nil hne,
        List.cons_append, List.map_cons, List.map_append, List.map_dropLast, List.map_singleton]
    · rw [Item.rename_of_ne hr]
      split
      · next hp => rw [if_neg fun hl => hr (href.2 ⟨hp, hlast.1 hl⟩)]
      · rfl

/-- Every palette item of a layout that refers to the one name refers to the other one. -/
theorem renameReference_text {items : List Item} {name : String} (hi : ∀ i ∈ items, i.Plain)
    (hname : Text.Plain name) (other : String) :
    renameReference (ShowItem.text items) name other =
      ShowItem.text (items.map (Item.rename name other)) := by
  by_cases hn : items = []
  · rw [hn]
    rfl
  · rw [renameReference, ShowItem.pieces_text hn hi, ShowItem.text, join, List.map_map, List.map_map,
      List.map_map]
    refine congrArg (fun l => String.ofList ([','].intercalate l)) (List.map_congr_left fun i hm => ?_)
    exact renameSegment_item (hi i hm) hname

end Palette

end FormLayout
