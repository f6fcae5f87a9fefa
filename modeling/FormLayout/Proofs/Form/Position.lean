import FormLayout.Form.Position
import FormLayout.Proofs.Text
/-!
Written positions are read as they were meant, if the id they refer to has no blanks around it, and
which texts are no positions.
-/

namespace FormLayout
set_option autoImplicit true

namespace Position

open Text

theorem ne_of_not_mem {sep : Char} {cs : List Char} (h : sep ∉ cs) :
    ∀ c ∈ cs, decide (c ≠ sep) = true := by
  intro c hc
  apply decide_eq_true
  rintro rfl
  exact h hc

theorem parse_of_colon {s : String} (hs : trimChars s.toList = word ++ ':' :: target)
    (hcolon : ':' ∉ word) : parse s =
      if trimChars target = [] then .error (.invalidPosition s .noTarget)
      else
        (ofWord? (lower (String.ofList (trimChars word))) (String.ofList (trimChars target))).elim
          (.error (.invalidPosition s (.unknownPlace (lower (String.ofList (trimChars word))))))
          .ok := by
  have hdrop : (word ++ ':' :: target).dropWhile (· ≠ ':') = ':' :: target := by
    rw [List.dropWhile_append_of_pos (ne_of_not_mem hcolon)]
    simp
  have htake : (word ++ ':' :: target).takeWhile (· ≠ ':') = word := by
    rw [List.takeWhile_append_of_pos (ne_of_not_mem hcolon)]
    simp
  rw [parse, hs]
  split
  · next he => simp at he
  · rw [hdrop, htake]
    dsimp only
    split
    · next ht => rw [if_pos ht]
    · next ht =>
      rw [if_neg ht]
      split
      · next hp => rw [hp, Option.elim_some]
      · next hp => rw [hp, Option.elim_none]

/-- The first colon divides a position. The blanks around its two parts are lost and nothing else. -/
theorem parse_padded {word target : String} (hw : Trimmed word.toList) (hcolon : ':' ∉ word.toList)
    (hword : ofWord? (lower word) target = some p) (ht : Trimmed target.toList)
    (hne : target ≠ "") (h₁ : Blank l₁) (h₂ : Blank l₂) (h₃ : Blank l₃) (h₄ : Blank l₄) :
    parse (l₁ ++ word ++ l₂ ++ ":" ++ l₃ ++ target ++ l₄) = .ok p := by
  have hchars : target.toList ≠ [] := fun he => hne (String.toList_eq_nil_iff.1 he)
  have hwchars : word.toList ≠ [] := by
    intro he
    rw [String.toList_eq_nil_iff.1 he] at hword
    cases hword
  have hlist : (l₁ ++ word ++ l₂ ++ ":" ++ l₃ ++ target ++ l₄).toList =
      l₁.toList ++ (word.toList ++ (l₂.toList ++ ':' :: l₃.toList) ++ target.toList) ++
        l₄.toList := by simp
  have hdivided : word.toList ++ (l₂.toList ++ ':' :: l₃.toList) ++ target.toList =
      (word.toList ++ l₂.toList) ++ ':' :: (l₃.toList ++ target.toList) := by simp
  have hfirst : ':' ∉ word.toList ++ l₂.toList := by
    rw [List.mem_append]
    rintro (hm | hm)
    · exact hcolon hm
    · exact Bool.false_ne_true (h₂ ':' hm)
  have hnone : ∀ c ∈ ([] : List Char), isBlank c = true := by simp
  have hbefore : trimChars (word.toList ++ l₂.toList) = word.toList := hw.trim_padded hnone h₂
  have hafter : trimChars (l₃.toList ++ target.toList) = target.toList := by
    simpa using ht.trim_padded h₃ hnone
  have htrim := (hw.append ht hwchars hchars (l₂.toList ++ ':' :: l₃.toList)).trim_padded h₁ h₄
  rw [parse_of_colon (by rw [hlist, htrim, hdivided]) hfirst, hbefore, hafter, if_neg hchars,
    String.ofList_toList, String.ofList_toList, hword, Option.elim_some]

theorem parse_word {word target : String} (hw : Trimmed word.toList) (hcolon : ':' ∉ word.toList)
    (hword : ofWord? (lower word) target = some p) (ht : Trimmed target.toList)
    (hne : target ≠ "") : parse (word ++ ":" ++ target) = .ok p := by
  simpa using parse_padded hw hcolon hword ht hne blank_empty blank_empty blank_empty blank_empty

theorem parse_text {p : Position}
    (h : ∀ target, p.target? = some target → Trimmed target.toList ∧ target ≠ "") :
    parse p.text = .ok p := by
  have hword {word target : String} (hw : trimChars word.toList = word.toList)
      (hcolon : ':' ∉ word.toList) (hword : ofWord? (lower word) target = some p)
      (htarget : p.target? = some target) : parse (word ++ ":" ++ target) = .ok p :=
    parse_word (trimmed_iff.2 hw) hcolon hword (h target htarget).1 (h target htarget).2
  cases p with
  | default => rfl
  | top target => exact @hword "top" target (by decide +kernel) (by decide +kernel) rfl rfl
  | bottom target => exact @hword "bottom" target (by decide +kernel) (by decide +kernel) rfl rfl
  | before target => exact @hword "before" target (by decide +kernel) (by decide +kernel) rfl rfl
  | after target => exact @hword "after" target (by decide +kernel) (by decide +kernel) rfl rfl

theorem ofWord?_eq_none_iff {word : String} (target : String) :
    ofWord? word target = none ↔ word ∉ ["top", "bottom", "before", "after"] := by
  rw [ofWord?]
  simp only [List.mem_cons, List.not_mem_nil, or_false, not_or]
  repeat' split
  all_goals simp_all

/-- A text that is no position: it has no colon, no id after the first colon, or before it another
word than those for places. -/
def Malformed (s : String) : Prop :=
  trimChars s.toList ≠ [] ∧ (':' ∉ trimChars s.toList ∨
    ∃ word target, trimChars s.toList = word ++ ':' :: target ∧ ':' ∉ word ∧
      (trimChars target = [] ∨
        lower (String.ofList (trimChars word)) ∉ ["top", "bottom", "before", "after"]))

theorem parse_of_no_colon {s : String} (hs : trimChars s.toList ≠ [])
    (hcolon : ':' ∉ trimChars s.toList) : parse s = .error (.invalidPosition s .noColon) := by
  have hdrop : (trimChars s.toList).dropWhile (· ≠ ':') = [] :=
    List.dropWhile_eq_nil_iff.2 (ne_of_not_mem hcolon)
  rw [parse]
  split
  · next he => exact absurd he hs
  · rw [hdrop]

theorem parse_error_iff {s : String} : (∃ e, parse s = .error e) ↔ Malformed s := by
  by_cases hs : trimChars s.toList = []
  · have hp : parse s = .ok .default := by rw [parse, hs]
    simp [Malformed, hs, hp]
  · by_cases hcolon : ':' ∈ trimChars s.toList
    · have hdivided {word target} (hcs : trimChars s.toList = word ++ ':' :: target)
          (hw : ':' ∉ word) : (∃ e, parse s = .error e) ↔ trimChars target = [] ∨
            lower (String.ofList (trimChars word)) ∉ ["top", "bottom", "before", "after"] := by
        rw [parse_of_colon hcs hw, ← ofWord?_eq_none_iff (String.ofList (trimChars target))]
        by_cases ht : trimChars target = []
        · simp [ht]
        · rw [if_neg ht]
          cases ofWord? _ _ <;> simp [ht]
      obtain ⟨word, target, hcs, hw⟩ := List.eq_append_cons_of_mem hcolon
      constructor
      · intro h
        exact ⟨hs, .inr ⟨word, target, hcs, hw, (hdivided hcs hw).1 h⟩⟩
      · rintro ⟨_, hno | ⟨word, target, hcs, hw, h⟩⟩
        · exact absurd hcolon hno
        · exact (hdivided hcs hw).2 h
    · exact iff_of_true ⟨_, parse_of_no_colon hs hcolon⟩ ⟨hs, .inl hcolon⟩

theorem target?_ofWord? (h : ofWord? word target = some p) : p.target? = some target := by
  rw [ofWord?] at h
  repeat' split at h
  all_goals cases h
  all_goals rfl

/-- The id that a position refers to has no blanks around it. -/
theorem target_of_parse (h : parse s = .ok p) (ht : p.target? = some target) :
    Trimmed target.toList ∧ target ≠ "" := by
  by_cases hs : trimChars s.toList = []
  · have hp : parse s = .ok .default := by rw [parse, hs]
    cases hp.symm.trans h
    cases ht
  by_cases hcolon : ':' ∈ trimChars s.toList
  · obtain ⟨word, rest, hcs, hw⟩ := List.eq_append_cons_of_mem hcolon
    rw [parse_of_colon hcs hw] at h
    split at h
    · cases h
    · next hrest =>
      cases hp : ofWord? (lower (String.ofList (trimChars word)))
        (String.ofList (trimChars rest)) with
      | none =>
        rw [hp] at h
        cases h
      | some q =>
        rw [hp] at h
        cases h
        obtain rfl := Option.some.inj ((target?_ofWord? hp).symm.trans ht)
        rw [String.toList_ofList]
        exact ⟨trimmed_trimChars rest, fun he => hrest (by simpa using congrArg String.toList he)⟩
  · cases (parse_of_no_colon hs hcolon).symm.trans h

/-- The words that a position may begin with. -/
def places : List (String × (String → Position)) :=
  [("top", .top), ("bottom", .bottom), ("before", .before), ("after", .after)]

theorem isLower_of_mem_places (h : place ∈ places) : ∀ c ∈ place.1.toList, c.isLower = true := by
  have hall : (places.all fun place => place.1.toList.all Char.isLower) = true := by decide +kernel
  exact List.all_eq_true.1 (List.all_eq_true.1 hall place h)

theorem ofWord?_of_mem_places (h : place ∈ places) (target : String) :
    ofWord? place.1 target = some (place.2 target) := by
  simp only [places, List.mem_cons, List.not_mem_nil, or_false] at h
  rcases h with rfl | rfl | rfl | rfl <;> rfl

/-- A position that was read is written as a text that reads as the same position. And any id
without blanks at its ends, whatever else is in it, can be referred to: behind a word for a place,
with any of the word's letters in capitals, and a colon, each with any blanks around it. -/
theorem parse_of_written :
    (∀ s p, parse s = .ok p → parse p.text = .ok p) ∧
      ∀ place ∈ places, ∀ word target l₁ l₂ l₃ l₄ : String, Casing place.1 word →
        target ≠ "" → trim target = target → Blank l₁ → Blank l₂ → Blank l₃ → Blank l₄ →
          parse (l₁ ++ word ++ l₂ ++ ":" ++ l₃ ++ target ++ l₄) = .ok (place.2 target) := by
  constructor
  · intro s p h
    exact parse_text fun target ht => target_of_parse h ht
  · intro place hplace word target l₁ l₂ l₃ l₄ hword hne ht h₁ h₂ h₃ h₄
    have hletters := isLower_of_mem_places hplace
    have hword? : ofWord? (lower word) target = some (place.2 target) := by
      rw [hword.lower_eq hletters]
      exact ofWord?_of_mem_places hplace target
    have hcolon : ':' ∉ word.toList := fun hm => by
      have halpha := hword.isAlpha hletters ':' hm
      cases halpha
    apply parse_padded _ hcolon hword? _ hne h₁ h₂ h₃ h₄
    · exact trimmed_of_forall fun c hc => isBlank_of_isAlpha (hword.isAlpha hletters c hc)
    · rw [trimmed_iff]
      simpa [trim] using congrArg String.toList ht

theorem parse_of_written_palette :
    parse "\t BeFORe :\n palette:--x-- \u2003" = .ok (.before "palette:--x--") ∧
      parse (text (.before "palette:--x--")) = .ok (.before "palette:--x--") := by
  have hparse := parse_of_written.2 ("before", .before) (by simp [places]) "BeFORe" "palette:--x--"
    "\t " " " "\n " " \u2003" (by decide +kernel) (by decide) (by decide +kernel)
    (by decide +kernel) (by decide +kernel) (by decide +kernel) (by decide +kernel)
  exact ⟨hparse, parse_of_written.1 _ _ hparse⟩

end Position

end FormLayout
