import FormLayout.Proofs.Text
import FormLayout.ShowItem
/-!
Writing items and reading them again. Items whose parts are plain come back as they were, except
those that are nothing but an empty part.
-/

namespace FormLayout
set_option autoImplicit true
open Text

/-- At least one part, and every part plain. -/
structure Item.Plain (item : Item) : Prop where
  ne_nil : item ≠ []
  parts : ∀ part ∈ item, Text.Plain part

theorem Item.toList_text (item : Item) :
    item.text.toList = [';'].intercalate (item.map String.toList) := by
  rw [Item.text, Text.join, String.toList_ofList]

theorem Item.Plain.pieces (h : Item.Plain item) :
    Text.pieces ';' item.text.toList = item.map String.toList := by
  rw [toList_text]
  apply pieces_intercalate (by simpa using h.ne_nil)
  intro p hp
  obtain ⟨part, hm, rfl⟩ := List.mem_map.1 hp
  exact (h.parts part hm).no_semicolon

theorem Item.Plain.trimmed_text (h : Item.Plain item) : Trimmed item.text.toList := by
  rw [toList_text]
  apply trimmed_intercalate (by decide)
  intro p hp
  obtain ⟨part, hm, rfl⟩ := List.mem_map.1 hp
  exact (h.parts part hm).trimmed

theorem Item.Plain.no_comma (h : Item.Plain item) : ',' ∉ item.text.toList := by
  rw [toList_text]
  apply not_mem_intercalate (by decide)
  intro p hp
  obtain ⟨part, hm, rfl⟩ := List.mem_map.1 hp
  exact (h.parts part hm).no_comma

theorem Item.Plain.text_eq_nil_iff (h : Item.Plain item) :
    item.text.toList = [] ↔ item = [""] := by
  constructor
  · intro he
    have hp := h.pieces
    rw [he] at hp
    cases item with
    | nil => exact absurd rfl h.ne_nil
    | cons part rest =>
      simp only [Text.pieces, List.map_cons, List.cons.injEq, List.nil_eq, List.map_eq_nil_iff,
        String.toList_eq_nil_iff] at hp
      rw [hp.1, hp.2]
  · rintro rfl
    rfl

theorem Item.Plain.cons (hp : Text.Plain part) (h : ∀ p ∈ rest, Text.Plain p) :
    Item.Plain (part :: rest) :=
  ⟨by simp, List.forall_mem_cons.2 ⟨hp, h⟩⟩

theorem Item.mem_of_mem_trimEnd (h : part ∈ Item.trimEnd item) : part ∈ item := by
  cases item with
  | nil => exact h
  | cons first rest =>
    rw [Item.trimEnd, List.mem_cons, List.mem_reverse] at h
    rcases h with rfl | h
    · exact List.mem_cons_self
    · exact List.mem_cons_of_mem _ (List.mem_reverse.1 ((List.dropWhile_sublist _).subset h))

theorem Item.trimEnd_eq_nil_iff : Item.trimEnd item = [] ↔ item = [] := by
  cases item with
  | nil => rfl
  | cons first rest => simp [Item.trimEnd]

theorem Item.trimEnd_trimEnd (item : Item) : item.trimEnd.trimEnd = item.trimEnd := by
  cases item with
  | nil => rfl
  | cons first rest => rw [Item.trimEnd, Item.trimEnd, List.reverse_reverse,
      List.dropWhile_idempotent]

@[simp] theorem Item.first_trimEnd (item : Item) : item.trimEnd.first = item.first := by
  cases item with
  | nil => rfl
  | cons first rest => rfl

theorem Item.kind_trimEnd (item : Item) : item.trimEnd.kind = item.kind := by
  rw [Item.kind, Item.kind, first_trimEnd]

theorem Item.kind_of_trimEnd_eq {item item' : Item} (h : item.trimEnd = item'.trimEnd) :
    item.kind = item'.kind := by
  rw [← kind_trimEnd, h, kind_trimEnd]

theorem Item.kind_of_blank {item : Item} (h : item.trimEnd = [""]) : item.kind = .field "" := by
  rw [← kind_trimEnd, h]
  decide

theorem Item.Plain.trimEnd (h : Item.Plain item) : Item.Plain item.trimEnd :=
  ⟨fun he => h.ne_nil (trimEnd_eq_nil_iff.1 he), fun p hp => h.parts p (mem_of_mem_trimEnd hp)⟩

theorem Item.Plain.first (h : Item.Plain item) : Text.Plain item.first := by
  cases item with
  | nil => exact absurd rfl h.ne_nil
  | cons first rest => exact h.parts first List.mem_cons_self

theorem Item.kind_eq_field_iff {item : Item} {id : String} :
    item.kind = .field id ↔ SpecialToken.ofPart? item.first = none ∧ item.first = id := by
  rw [Item.kind]
  cases SpecialToken.ofPart? item.first <;> simp

namespace ShowItem

/-- The item between two commas, unless there is nothing. -/
def item? (segment : List Char) : Option Item :=
  if (trimChars segment).isEmpty then none
  else some ((pieces ';' (trimChars segment)).map fun part => String.ofList (trimChars part))

theorem parse_eq (s : String) : parse s = (pieces ',' s.toList).filterMap item? := by
  rw [parse, List.filterMap_map]
  rfl

theorem item?_text (h : Item.Plain item) :
    item? item.text.toList = if item = [""] then none else some item := by
  simp only [item?, h.trimmed_text.trim_eq, List.isEmpty_iff]
  by_cases he : item = [""]
  · rw [if_pos he, if_pos (h.text_eq_nil_iff.2 he)]
  · rw [if_neg he, if_neg (mt h.text_eq_nil_iff.1 he), h.pieces, List.map_map, Option.some_inj]
    refine (List.map_congr_left fun part hp => ?_).trans (List.map_id item)
    rw [Function.comp_apply, (h.parts part hp).trimmed.trim_eq, String.ofList_toList, id_eq]

theorem plain_of_item? {segment : List Char} (h : item? segment = some item)
    (hc : ',' ∉ segment) :
    item.Plain ∧ item ≠ [""] := by
  rw [item?] at h
  split at h
  · cases h
  · next hs =>
    rw [Option.some_inj] at h
    subst h
    refine ⟨⟨by simpa using pieces_ne_nil _ _, fun part hp => ?_⟩, fun he => hs ?_⟩
    · obtain ⟨p, hm, rfl⟩ := List.mem_map.1 hp
      rw [plain_iff, String.toList_ofList]
      refine ⟨fun hx => hc ?_, fun hx => ?_, trimChars_trimChars p⟩
      · exact mem_of_mem_trimChars (mem_of_mem_pieces hm (mem_of_mem_trimChars hx))
      · exact not_mem_of_mem_pieces hm (mem_of_mem_trimChars hx)
    · have hi := intercalate_pieces ';' (trimChars segment)
      obtain ⟨p, hp, hpe⟩ := List.map_eq_singleton_iff.1 he
      rw [hp, List.intercalate_singleton] at hi
      have ht := congrArg String.toList hpe
      rw [String.toList_ofList, hi, trimChars_trimChars] at ht
      rw [ht]
      rfl

theorem plain_of_mem_parse (h : item ∈ parse s) : item.Plain ∧ item ≠ [""] := by
  rw [parse_eq, List.mem_filterMap] at h
  obtain ⟨segment, hm, h⟩ := h
  exact plain_of_item? h (not_mem_of_mem_pieces hm)

theorem pieces_text (hn : items ≠ []) (h : ∀ item ∈ items, Item.Plain item) :
    pieces ',' (text items).toList = items.map fun item => item.text.toList := by
  rw [text, join, String.toList_ofList, List.map_map]
  apply pieces_intercalate (by simpa using hn)
  intro p hp
  obtain ⟨item, hm, rfl⟩ := List.mem_map.1 hp
  exact (h item hm).no_comma

theorem parse_text (h : ∀ item ∈ items, Item.Plain item) :
    parse (text items) = items.filter (· ≠ [""]) := by
  by_cases hn : items = []
  · rw [hn]
    rfl
  · rw [parse_eq, pieces_text hn h, List.filterMap_map, ← List.filterMap_eq_filter]
    refine List.filterMap_congr fun item hm => ?_
    rw [Function.comp_apply, item?_text (h item hm)]
    by_cases he : item = [""] <;> simp [he, Option.guard]

/-- The items that a text can have: plain ones that are not just an empty part. -/
def Written (items : List Item) : Prop := ∀ item ∈ items, item.Plain ∧ item ≠ [""]

theorem written_parse (s : String) : Written (parse s) := fun _ hm => plain_of_mem_parse hm

theorem parse_text_of_written (h : Written items) : parse (text items) = items := by
  rw [parse_text fun item hm => (h item hm).1, List.filter_eq_self]
  exact fun item hm => decide_eq_true (h item hm).2

/-- Writing is the inverse of reading on what reading gives, which is all that can be written and
read again. -/
theorem text_inverse_parse :
    (∀ s, Written (parse s) ∧ parse (text (parse s)) = parse s) ∧
      ∀ items, Written items ↔ parse (text items) = items := by
  constructor
  · intro s
    exact ⟨written_parse s, parse_text_of_written (written_parse s)⟩
  · intro items
    constructor
    · exact parse_text_of_written
    · intro h
      rw [← h]
      exact written_parse _

/-- Blanks beyond ASCII are dropped as well, and empty parts are kept. -/
example : parse ";;\u00a0,\u2003a ; b,,\n" = [["", "", ""], ["a", "b"]] ∧
    text [["", "", ""], ["a", "b"]] = ";;,a;b" := by decide +kernel

/-- The items without empty parts at their ends, and without those that were nothing else. -/
def trimmed (items : List Item) : List Item := (items.map Item.trimEnd).filter (· ≠ [""])

theorem trimmed_cons (item : Item) (rest : List Item) :
    trimmed (item :: rest) = trimmed [item] ++ trimmed rest := by
  rw [trimmed, trimmed, trimmed, ← List.filter_append]
  rfl

theorem trimmed_singleton (h : Item.trimEnd item ≠ [""]) : trimmed [item] = [item.trimEnd] := by
  simp [trimmed, h]

theorem trimmed_blank (h : Item.trimEnd item = [""]) : trimmed [item] = [] := by
  simp [trimmed, h]

/-- What counts of a layout. -/
def essence (s : String) : List Item := trimmed (parse s)

theorem parse_canonical (s : String) : parse (canonical s) = essence s := by
  apply parse_text
  intro item hm
  obtain ⟨i, hi, rfl⟩ := List.mem_map.1 hm
  exact (plain_of_mem_parse hi).1.trimEnd

theorem essence_eq_of_canonical_eq (h : canonical s = canonical s') : essence s = essence s' := by
  rw [← parse_canonical, ← parse_canonical, h]

theorem essence_text (h : ∀ item ∈ items, Item.Plain item)
    (ht : ∀ item ∈ items, Item.trimEnd item = item) (hb : ∀ item ∈ items, item ≠ [""]) :
    essence (text items) = items := by
  have hf : items.filter (· ≠ [""]) = items := List.filter_eq_self.2 fun i hi => by simpa using hb i hi
  rw [essence, parse_text h, hf, trimmed, List.map_congr_left (g := id) ht, List.map_id, hf]

theorem text_injective (hn : items ≠ []) (hn' : items' ≠ []) (h : ∀ i ∈ items, Item.Plain i)
    (h' : ∀ i ∈ items', Item.Plain i) (he : text items = text items') : items = items' := by
  have htexts : items.map (fun i => i.text.toList) = items'.map fun i => i.text.toList := by
    rw [← pieces_text hn h, ← pieces_text hn' h', he]
  have hpieces {items : List Item} (h : ∀ i ∈ items, Item.Plain i) :
      (items.map fun i => i.text.toList).map (pieces ';') =
        items.map (List.map String.toList) := by
    rw [List.map_map]
    exact List.map_congr_left fun i hi => (h i hi).pieces
  have hparts := congrArg (List.map (pieces ';')) htexts
  rw [hpieces h, hpieces h'] at hparts
  exact List.map_injective_iff.2 (List.map_injective_iff.2 fun _ _ => String.toList_inj.1) hparts

theorem plain_map_trimEnd_parse (s : String) :
    ∀ item ∈ (parse s).map Item.trimEnd, Item.Plain item := by
  intro item hm
  obtain ⟨i, hi, rfl⟩ := List.mem_map.1 hm
  exact (plain_of_mem_parse hi).1.trimEnd

/-- Texts of one canonical form have the same items up to empty parts at the end, or nothing but
blank items. -/
theorem parse_of_canonical_eq (h : canonical s = canonical s') :
    (parse s).map Item.trimEnd = (parse s').map Item.trimEnd ∨
      essence s = [] ∧ essence s' = [] := by
  have he : essence s = essence s' := essence_eq_of_canonical_eq h
  have hnil {s : String} (hp : parse s = []) : essence s = [] := by rw [essence, hp]; rfl
  by_cases hs : parse s = []
  · exact .inr ⟨hnil hs, he ▸ hnil hs⟩
  · by_cases hs' : parse s' = []
    · exact .inr ⟨he.trans (hnil hs'), hnil hs'⟩
    · left
      exact text_injective (by simpa using hs) (by simpa using hs') (plain_map_trimEnd_parse s)
        (plain_map_trimEnd_parse s') h

theorem trimEnd_of_essence_nil (h : essence s = []) : ∀ item ∈ parse s, item.trimEnd = [""] := by
  intro item hm
  have hf := List.filter_eq_nil_iff.1 h item.trimEnd (List.mem_map_of_mem hm)
  simpa using hf

theorem map_trimEnd_essence (s : String) : (essence s).map Item.trimEnd = essence s := by
  refine (List.map_congr_left fun item hm => ?_).trans (List.map_id _)
  obtain ⟨i, _, rfl⟩ := List.mem_map.1 (List.mem_of_mem_filter hm)
  exact Item.trimEnd_trimEnd i

theorem essence_canonical (s : String) : essence (canonical s) = essence s := by
  rw [essence, parse_canonical, trimmed, map_trimEnd_essence, essence, trimmed, List.filter_filter]
  simp only [Bool.and_self]

/-- The second time the items that were left blank are gone. -/
theorem canonical_canonical (s : String) : canonical (canonical s) = text (essence s) := by
  rw [canonical, parse_canonical, map_trimEnd_essence]

theorem text_filter_eq_iff (h : ∀ item ∈ items, Item.Plain item) :
    text (items.filter (· ≠ [""])) = text items ↔
      items.length ≤ 1 ∨ ∀ item ∈ items, item ≠ [""] := by
  constructor
  · intro he
    by_contra hn
    rw [not_or] at hn
    obtain ⟨hlong, hblank⟩ := hn
    have hne : items ≠ [] := by
      rintro rfl
      exact hlong (Nat.zero_le 1)
    by_cases hnil : items.filter (· ≠ [""]) = []
    · have hlen := congrArg List.length (pieces_text hne h)
      rw [← he, hnil, List.length_map] at hlen
      exact hlong hlen.ge
    · have heq := text_injective hnil hne (fun i hi => h i (List.mem_of_mem_filter hi)) h he
      exact hblank fun i hi => of_decide_eq_true (List.filter_eq_self.1 heq i hi)
  · rintro (hshort | hblank)
    · match items with
      | [] => rfl
      | [item] =>
        by_cases hb : item = [""]
        · rw [hb]
          rfl
        · rw [List.filter_eq_self.2 (by simpa using hb)]
      | _ :: _ :: _ => simp at hshort
    · rw [List.filter_eq_self.2 fun i hi => decide_eq_true (hblank i hi)]

/-- The canonical form of a text is its own canonical form unless one of several items has nothing
but empty parts: such an item is written as an empty one, which is not read again. The canonical
form of a canonical form is stable. -/
theorem canonical_fixed_iff (s : String) :
    (canonical (canonical s) = canonical s ↔
      (parse s).length ≤ 1 ∨ ∀ item ∈ parse s, item.trimEnd ≠ [""]) ∧
    canonical (canonical (canonical s)) = canonical (canonical s) := by
  constructor
  · rw [canonical_canonical, canonical, essence, trimmed,
      text_filter_eq_iff (plain_map_trimEnd_parse s), List.length_map, List.forall_mem_map]
  · rw [canonical_canonical, canonical_canonical, essence_canonical]

theorem canonical_of_blank_item : canonical (canonical ";;,a") ≠ canonical ";;,a" := by
  decide +kernel

end ShowItem

end FormLayout
