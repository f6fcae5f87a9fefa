import FormLayout.Form.Tree
import FormLayout.Proofs.Entries
/-!
The ids that a tree makes up are free: there are more numbers to try than nodes.
-/

namespace FormLayout
set_option autoImplicit true

theorem toString_nat_injective : Function.Injective (toString : Nat → String) := by
  intro a b h
  have hd : Nat.toDigits 10 a = Nat.toDigits 10 b := by
    rw [← Nat.toList_repr, ← Nat.toList_repr]
    exact congrArg String.toList h
  have he := congrArg (Nat.ofDigitChars 10 · 0) hd
  simpa only [Nat.ofDigitChars_ten_toDigits] using he

theorem lineBreakId_injective : Function.Injective lineBreakId := by
  intro a b h
  exact toString_nat_injective ((String.append_right_inj _).1 ((String.append_left_inj _).1 h))

theorem paletteId_injective : Function.Injective paletteId :=
  fun _ _ h => (String.append_right_inj _).1 h

theorem isDigit_of_mem_toString {n : Nat} {c : Char} (h : c ∈ (toString n).toList) :
    c.isDigit = true := by
  have hr : (toString n).toList = Nat.toDigits 10 n := Nat.toList_repr
  rw [hr] at h
  exact Nat.isDigit_of_mem_toDigits (by decide) (by decide) h

theorem toString_ne_paletteId (n : Nat) (name : String) : toString n ≠ paletteId name := by
  intro he
  have hc : ':' ∈ (toString n).toList := by
    rw [he, paletteId, String.toList_append]
    exact List.mem_append_left _ (by decide +kernel)
  exact absurd (isDigit_of_mem_toString hc) (by decide)

theorem toString_ne_lineBreakId (n k : Nat) : toString n ≠ lineBreakId k := by
  intro he
  have hc : '-' ∈ (toString n).toList := by
    rw [he, lineBreakId, String.toList_append]
    exact List.mem_append_right _ (by decide +kernel)
  exact absurd (isDigit_of_mem_toString hc) (by decide)

theorem lineBreakId_ne_paletteId (n : Nat) (name : String) : lineBreakId n ≠ paletteId name := by
  intro he
  have hh := congrArg (fun s => s.toList.head?) he
  simp [lineBreakId, paletteId, String.toList_append] at hh

/-- Each taken number uses up one of the names, so the search ends before its bound. -/
theorem firstFree_free {taken : Nat → Bool} {f : Nat → String} (hf : Function.Injective f)
    {l : List String}
    (hl : l.length ≤ n) (ht : ∀ k, start ≤ k → taken k = true → f k ∈ l) :
    taken (firstFree taken start n) = false := by
  induction n generalizing start l with
  | zero =>
    rw [firstFree, ← Bool.not_eq_true]
    intro h
    have hm := ht start (Nat.le_refl _) h
    rw [List.length_eq_zero_iff.1 (Nat.le_zero.1 hl)] at hm
    cases hm
  | succ n ih =>
    rw [firstFree]
    split
    · next h =>
      have hm := ht start (Nat.le_refl _) h
      apply ih (l := l.erase (f start))
      · rw [List.length_erase_of_mem hm]
        omega
      · intro k hk hkt
        have hne : f k ≠ f start := fun he => by
          have := hf he
          omega
        exact (List.mem_erase_of_ne hne).2 (ht k (by omega) hkt)
    · next h => exact Bool.not_eq_true _ ▸ h

theorem firstFree_of_free {taken : Nat → Bool} (h : taken start = false) (n : Nat) :
    firstFree taken start n = start := by
  cases n with
  | zero => rfl
  | succ n => rw [firstFree, h, if_neg Bool.false_ne_true]

theorem le_firstFree (taken : Nat → Bool) (start n : Nat) : start ≤ firstFree taken start n := by
  induction n generalizing start with
  | zero => exact Nat.le_refl start
  | succ n ih =>
    rw [firstFree]
    split
    · exact Nat.le_of_succ_le (ih (start + 1))
    · exact Nat.le_refl start

/-- The search that tries one number after another, from the first one on, ends at the second, which
is not taken. -/
inductive SearchEnds (taken : Nat → Bool) : Nat → Nat → Prop where
  | found : taken n = false → SearchEnds taken n n
  | next : taken k = true → SearchEnds taken (k + 1) n → SearchEnds taken k n

/-- A bounded search that ends at a free number is the search without a bound. -/
theorem searchEnds_firstFree {taken : Nat → Bool} (h : taken (firstFree taken start n) = false) :
    SearchEnds taken start (firstFree taken start n) := by
  induction n generalizing start with
  | zero => exact .found h
  | succ n ih =>
    cases ht : taken start with
    | true =>
      rw [firstFree, if_pos ht] at h ⊢
      exact .next ht (ih h)
    | false =>
      rw [firstFree_of_free ht]
      exact .found ht

namespace FormTree

theorem has_firstFree (t : FormTree) {f : Nat → String} (hf : Function.Injective f)
    (start : Nat) : t.has (f (firstFree (fun n => t.has (f n)) start t.size)) = false :=
  firstFree_free hf (l := t.nodes.names) (by rw [Entries.names, List.length_map]; exact Nat.le_refl _)
    fun _ _ h => Entries.has_iff.1 h

theorem node?_nextTabId (t : FormTree) : t.node? t.nextTabId = none :=
  Entries.has_eq_false_iff.1 (t.has_firstFree toString_nat_injective _)

theorem nextTabId_of_nil {t : FormTree} (ht : t.tabs = []) (h : t.node? (toString 0) = none) :
    t.nextTabId = toString 0 := by
  rw [nextTabId, ht, List.length_nil, firstFree_of_free (Entries.has_eq_false_iff.2 h)]

theorem node?_nextLineBreak (t : FormTree) : t.node? (lineBreakId t.nextLineBreak) = none :=
  Entries.has_eq_false_iff.1 (t.has_firstFree lineBreakId_injective _)

/-- The bounds of both searches are never reached. -/
theorem searchEnds_nextTabId (t : FormTree) : ∃ n,
    SearchEnds (fun k => t.has (toString k)) t.tabs.length n ∧ t.nextTabId = toString n :=
  ⟨_, searchEnds_firstFree (t.has_firstFree toString_nat_injective _), rfl⟩

theorem searchEnds_nextLineBreak (t : FormTree) :
    SearchEnds (fun k => t.has (lineBreakId k)) (t.lineBreaks + 1) t.nextLineBreak :=
  searchEnds_firstFree (t.has_firstFree lineBreakId_injective _)

theorem lt_nextLineBreak (t : FormTree) : t.lineBreaks < t.nextLineBreak := le_firstFree _ _ _

theorem le_nextLineBreak (t : FormTree) : t.lineBreaks ≤ t.nextLineBreak :=
  Nat.le_of_lt t.lt_nextLineBreak

end FormTree

end FormLayout
