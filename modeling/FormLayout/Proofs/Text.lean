import FormLayout.Text.Blank
import FormLayout.Text.Pieces
import Mathlib.Data.List.DropRight
/-!
Trimming, splitting and joining undo each other on texts without blank ends and separators.
-/

namespace FormLayout.Text
set_option autoImplicit true

/-- Neither end is blank. -/
def Trimmed (cs : List Char) : Prop :=
  (∀ c ∈ cs.head?, isBlank c = false) ∧ ∀ c ∈ cs.getLast?, isBlank c = false

theorem isBlank_of_isDigit {c : Char} (h : c.isDigit = true) : isBlank c = false := by
  simp only [Char.isDigit, Bool.and_eq_true, decide_eq_true_eq, UInt32.le_iff_toNat_le] at h
  have hn : 48 ≤ c.toNat ∧ c.toNat ≤ 57 := h
  simp only [isBlank, Bool.or_eq_false_iff, Bool.and_eq_false_iff, decide_eq_false_iff_not]
  omega

theorem toNat_of_isUpper {c : Char} (h : c.isUpper = true) : 65 ≤ c.toNat ∧ c.toNat ≤ 90 := by
  have hval : 65 ≤ c.val ∧ c.val ≤ 90 := of_decide_eq_true h
  rw [UInt32.le_iff_toNat_le, UInt32.le_iff_toNat_le] at hval
  exact hval

theorem toNat_of_isLower {c : Char} (h : c.isLower = true) : 97 ≤ c.toNat ∧ c.toNat ≤ 122 := by
  have hval : 97 ≤ c.val ∧ c.val ≤ 122 :=
    (Bool.and_eq_true_iff.1 h).imp of_decide_eq_true of_decide_eq_true
  rw [UInt32.le_iff_toNat_le, UInt32.le_iff_toNat_le] at hval
  exact hval

theorem isBlank_of_isAlpha {c : Char} (h : c.isAlpha = true) : isBlank c = false := by
  have hn : 65 ≤ c.toNat ∧ c.toNat ≤ 90 ∨ 97 ≤ c.toNat ∧ c.toNat ≤ 122 :=
    (Bool.or_eq_true_iff.1 h).imp toNat_of_isUpper toNat_of_isLower
  simp only [isBlank, Bool.or_eq_false_iff, Bool.and_eq_false_iff, decide_eq_false_iff_not]
  omega

theorem trimmed_of_forall (h : ∀ c ∈ cs, isBlank c = false) : Trimmed cs :=
  ⟨fun c hc => h c (List.mem_of_mem_head? hc), fun c hc => h c (List.mem_of_mem_getLast? hc)⟩

theorem trimStart_eq_self (h : ∀ c ∈ cs.head?, isBlank c = false) : trimStart cs = cs := by
  cases cs with
  | nil => rfl
  | cons c cs => rw [trimStart, List.dropWhile_cons, h c rfl]; rfl

theorem trimEnd_eq_self (h : ∀ c ∈ cs.getLast?, isBlank c = false) : trimEnd cs = cs := by
  refine (List.rdropWhile_eq_self_iff (p := isBlank)).2 fun hn => ?_
  rw [h _ (List.getLast?_eq_some_getLast hn)]
  exact Bool.false_ne_true

theorem Trimmed.trim_eq (h : Trimmed cs) : trimChars cs = cs := by
  rw [trimChars, trimStart_eq_self h.1, trimEnd_eq_self h.2]

theorem head?_trimStart : ∀ c ∈ (trimStart cs).head?, isBlank c = false := by
  intro c hc
  have h := List.head?_dropWhile_not isBlank cs
  rw [trimStart, Option.mem_def] at hc
  rw [hc] at h
  simpa using h

theorem prefix_trimEnd (cs : List Char) : trimEnd cs <+: cs := List.rdropWhile_prefix isBlank cs

theorem head?_trimEnd (h : ∀ c ∈ cs.head?, isBlank c = false) :
    ∀ c ∈ (trimEnd cs).head?, isBlank c = false := by
  intro c hc
  obtain ⟨t, ht⟩ := prefix_trimEnd cs
  apply h
  rw [← ht, List.head?_append, hc, Option.some_or, Option.mem_def]

theorem getLast?_trimEnd : ∀ c ∈ (trimEnd cs).getLast?, isBlank c = false := by
  intro c hc
  rw [trimEnd, List.getLast?_reverse] at hc
  exact head?_trimStart c hc

theorem trimmed_trimChars (cs : List Char) : Trimmed (trimChars cs) :=
  ⟨head?_trimEnd head?_trimStart, getLast?_trimEnd⟩

theorem trimmed_iff : Trimmed cs ↔ trimChars cs = cs :=
  ⟨Trimmed.trim_eq, fun h => h ▸ trimmed_trimChars cs⟩

theorem trimChars_trimChars (cs : List Char) : trimChars (trimChars cs) = trimChars cs :=
  (trimmed_trimChars cs).trim_eq

theorem mem_of_mem_trimChars (h : c ∈ trimChars cs) : c ∈ cs :=
  (List.dropWhile_sublist _).subset ((prefix_trimEnd _).subset h)

/-- A text that would be trimmed to nothing. -/
def Blank (s : String) : Prop := ∀ c ∈ s.toList, isBlank c = true

instance (s : String) : Decidable (Blank s) :=
  decidable_of_iff (s.toList.all isBlank = true) List.all_eq_true

theorem blank_empty : Blank "" := by simp [Blank]

theorem Trimmed.append (hf : Trimmed front) (hb : Trimmed back) (hfn : front ≠ []) (hbn : back ≠ [])
    (middle : List Char) : Trimmed (front ++ middle ++ back) := by
  constructor
  · intro c hc
    rw [List.append_assoc, List.head?_append_of_ne_nil _ hfn] at hc
    exact hf.1 c hc
  · intro c hc
    rw [List.getLast?_append_of_ne_nil _ hbn] at hc
    exact hb.2 c hc

/-- Of a text with blanks around it only the blanks are trimmed. -/
theorem Trimmed.trim_padded (h : Trimmed cs) (hf : ∀ c ∈ front, isBlank c = true)
    (hb : ∀ c ∈ back, isBlank c = true) : trimChars (front ++ cs ++ back) = cs := by
  have hback : trimEnd (cs ++ back) = cs := by
    rw [trimEnd, List.reverse_append,
      List.dropWhile_append_of_pos fun c hc => hb c (List.mem_reverse.1 hc)]
    exact trimEnd_eq_self h.2
  rw [trimChars, List.append_assoc, trimStart, List.dropWhile_append_of_pos hf]
  by_cases hcs : cs = []
  · rw [hcs, List.nil_append, List.dropWhile_eq_nil_iff.2 hb]
    rfl
  · have hhead : trimStart (cs ++ back) = cs ++ back := by
      apply trimStart_eq_self
      intro c hc
      rw [List.head?_append_of_ne_nil _ hcs] at hc
      exact h.1 c hc
    exact (congrArg trimEnd hhead).trans hback

theorem pieces_of_not_mem (h : sep ∉ cs) : pieces sep cs = [cs] := by
  induction cs with
  | nil => rfl
  | cons c cs ih =>
    rw [List.mem_cons, not_or] at h
    rw [pieces, if_neg (Ne.symm h.1), ih h.2]

theorem pieces_append (h : sep ∉ p) (rest : List Char) :
    pieces sep (p ++ sep :: rest) = p :: pieces sep rest := by
  induction p with
  | nil => rw [List.nil_append, pieces, if_pos rfl]
  | cons c p ih =>
    rw [List.mem_cons, not_or] at h
    rw [List.cons_append, pieces, if_neg (Ne.symm h.1), ih h.2]

theorem pieces_intercalate (hn : ps ≠ []) (h : ∀ p ∈ ps, sep ∉ p) :
    pieces sep ([sep].intercalate ps) = ps := by
  induction ps with
  | nil => exact absurd rfl hn
  | cons p ps ih =>
    cases ps with
    | nil => simpa using pieces_of_not_mem (h p (by simp))
    | cons q ps =>
      rw [List.intercalate_cons_cons, List.append_assoc, List.singleton_append,
        pieces_append (h p (by simp)), ih (by simp) fun x hx => h x (List.mem_cons_of_mem _ hx)]

theorem intercalate_concat (sep : Char) {init : List (List Char)} (hn : init ≠ [])
    (last : List Char) :
    [sep].intercalate (init ++ [last]) = [sep].intercalate init ++ sep :: last := by
  induction init with
  | nil => exact absurd rfl hn
  | cons p init ih =>
    cases init with
    | nil => simp [List.intercalate_cons_cons]
    | cons q init =>
      rw [List.cons_append, List.cons_append, List.intercalate_cons_cons, List.intercalate_cons_cons,
        ← List.cons_append, ih (List.cons_ne_nil _ _), List.append_assoc _ _ (sep :: last)]

theorem not_mem_of_mem_pieces (h : p ∈ pieces sep cs) : sep ∉ p := by
  induction cs generalizing p with
  | nil => simp_all [pieces]
  | cons c cs ih =>
    rw [pieces] at h
    split at h
    · rcases List.mem_cons.1 h with rfl | h
      · simp
      · exact ih h
    · next hc =>
      split at h
      · next hp => exact absurd hp (pieces_ne_nil sep cs)
      · next q qs hp =>
        rcases List.mem_cons.1 h with rfl | h
        · have hq : sep ∉ q := ih (by rw [hp]; simp)
          simp [Ne.symm hc, hq]
        · exact ih (by rw [hp]; exact List.mem_cons_of_mem _ h)

theorem mem_intercalate (h : p ∈ ps) (hc : c ∈ p) : c ∈ [sep].intercalate ps := by
  induction ps with
  | nil => cases h
  | cons q ps ih =>
    cases ps with
    | nil =>
      rw [List.mem_singleton] at h
      simpa [← h] using hc
    | cons r ps =>
      rw [List.intercalate_cons_cons, List.mem_append, List.mem_append]
      rcases List.mem_cons.1 h with rfl | h
      · exact .inl (.inl hc)
      · exact .inr (ih h)

theorem mem_of_mem_pieces (h : p ∈ pieces sep cs) (hc : c ∈ p) : c ∈ cs := by
  rw [← intercalate_pieces sep cs]
  exact mem_intercalate h hc

theorem not_mem_intercalate (hs : x ≠ sep) (h : ∀ p ∈ ps, x ∉ p) : x ∉ [sep].intercalate ps := by
  induction ps with
  | nil => simp
  | cons p ps ih =>
    cases ps with
    | nil => simpa using h p (by simp)
    | cons q ps =>
      rw [List.intercalate_cons_cons, List.mem_append, List.mem_append, not_or, not_or]
      exact ⟨⟨h p (by simp), by simpa using hs⟩, ih fun y hy => h y (List.mem_cons_of_mem _ hy)⟩

theorem trimmed_intercalate (hs : isBlank sep = false) (h : ∀ p ∈ ps, Trimmed p) :
    Trimmed ([sep].intercalate ps) := by
  induction ps with
  | nil => exact ⟨by simp, by simp⟩
  | cons p ps ih =>
    have hp := h p (by simp)
    cases ps with
    | nil => simpa using hp
    | cons q ps =>
      have hr := ih fun y hy => h y (List.mem_cons_of_mem _ hy)
      rw [List.intercalate_cons_cons]
      constructor
      · cases p with
        | nil => simpa using hs
        | cons c p => simpa using hp.1
      · cases he : [sep].intercalate (q :: ps) with
        | nil => simpa [List.getLast?_append] using hs
        | cons c cs =>
          rw [he] at hr
          intro x hx
          rw [List.getLast?_append_of_ne_nil _ (by simp)] at hx
          exact hr.2 x hx

/-- A text that splitting and trimming leave alone: no separator in it, no blank around it. -/
structure Plain (s : String) : Prop where
  no_comma : ',' ∉ s.toList
  no_semicolon : ';' ∉ s.toList
  trimmed : Trimmed s.toList

theorem plain_empty : Plain "" := ⟨by simp, by simp, by simp [Trimmed]⟩

theorem plain_iff : Plain s ↔ ',' ∉ s.toList ∧ ';' ∉ s.toList ∧ trimChars s.toList = s.toList :=
  ⟨fun h => ⟨h.1, h.2, h.3.trim_eq⟩, fun h => ⟨h.1, h.2.1, trimmed_iff.2 h.2.2⟩⟩

instance : Decidable (Plain s) := decidable_of_iff' _ plain_iff

/-- A text that differs from a word only in that some letters may be capitals. -/
def Casing (word s : String) : Prop :=
  List.Forall₂ (fun c d => d = c ∨ d = c.toUpper) word.toList s.toList

instance (word s : String) : Decidable (Casing word s) :=
  inferInstanceAs (Decidable (List.Forall₂ _ _ _))

/-- A small letter or its capital. -/
theorem isAlpha_of_isLower {c d : Char} (h : c.isLower = true) (hd : d = c ∨ d = c.toUpper) :
    d.isAlpha = true ∧ d.toLower = c := by
  have hall : ∀ n ∈ List.range' 97 26,
      ((Char.ofNat n).isAlpha = true ∧ (Char.ofNat n).toLower = Char.ofNat n) ∧
        (Char.ofNat n).toUpper.isAlpha = true ∧ (Char.ofNat n).toUpper.toLower = Char.ofNat n := by
    decide +kernel
  have hn : c.toNat ∈ List.range' 97 26 := by
    have hbounds := toNat_of_isLower h
    rw [List.mem_range'_1]
    omega
  have hc := hall c.toNat hn
  rw [Char.ofNat_toNat] at hc
  rcases hd with rfl | rfl
  · exact hc.1
  · exact hc.2

theorem map_toLower_of_casing {cs ds : List Char}
    (h : List.Forall₂ (fun c d => d = c ∨ d = c.toUpper) cs ds)
    (hc : ∀ c ∈ cs, c.isLower = true) :
    (∀ d ∈ ds, d.isAlpha = true) ∧ ds.map Char.toLower = cs := by
  induction h with
  | nil => exact ⟨by simp, rfl⟩
  | cons hd _ ih =>
    obtain ⟨halpha, hlower⟩ := isAlpha_of_isLower (hc _ List.mem_cons_self) hd
    obtain ⟨hrest, hmap⟩ := ih fun c hm => hc c (List.mem_cons_of_mem _ hm)
    exact ⟨List.forall_mem_cons.2 ⟨halpha, hrest⟩, by rw [List.map_cons, hlower, hmap]⟩

theorem Casing.isAlpha (h : Casing word s) (hw : ∀ c ∈ word.toList, c.isLower = true) :
    ∀ c ∈ s.toList, c.isAlpha = true :=
  (map_toLower_of_casing h hw).1

theorem Casing.lower_eq (h : Casing word s) (hw : ∀ c ∈ word.toList, c.isLower = true) :
    lower s = word := by
  rw [lower, (map_toLower_of_casing h hw).2, String.ofList_toList]

end FormLayout.Text
