import FormLayout.Entries
import Mathlib.Data.List.Induction
import Mathlib.Data.List.Nodup
import Mathlib.Data.List.Perm.Subperm
/-!
Lookups, names and distinctness under the operations of ordered maps.
-/

namespace FormLayout
set_option autoImplicit true

theorem eq_none_of_rel {R : α → β → Prop} (h : Option.Rel R none y) : y = none := by
  cases h
  rfl

theorem exists_of_rel {R : α → β → Prop} (h : Option.Rel R (some a) y) :
    ∃ b, y = some b ∧ R a b := by
  cases h with
  | some hr => exact ⟨_, rfl, hr⟩

theorem exists_of_rel_some {R : α → β → Prop} (h : Option.Rel R x (some b)) :
    ∃ a, x = some a ∧ R a b := by
  cases h with
  | some hr => exact ⟨_, rfl, hr⟩

theorem exists_forall₂ {R : α → β → Prop} {l : List α} (h : ∀ a ∈ l, ∃ b, R a b) :
    ∃ r, List.Forall₂ R l r := by
  induction l with
  | nil => exact ⟨[], .nil⟩
  | cons a rest ih =>
    rw [List.forall_mem_cons] at h
    obtain ⟨b, hb⟩ := h.1
    obtain ⟨r, hr⟩ := ih h.2
    exact ⟨b :: r, .cons hb hr⟩

namespace Entries

variable {α β : Type} {m n : Entries α}

theorem get?_eq_none_iff : m.get? name = none ↔ name ∉ m.names := by
  induction m with
  | nil => simp [get?, names]
  | cons e rest ih =>
    obtain ⟨k, v⟩ := e
    by_cases h : k = name
    · simp [get?, names, h]
    · simpa [get?, names, h, Ne.symm h] using ih

theorem mem_names_iff : name ∈ m.names ↔ ∃ v, m.get? name = some v := by
  rw [← Option.ne_none_iff_exists', Ne, get?_eq_none_iff, not_not]

theorem has_iff : m.has name = true ↔ name ∈ m.names := by
  rw [has, Option.isSome_iff_exists, mem_names_iff]

theorem has_eq_false_iff : m.has name = false ↔ m.get? name = none := by
  rw [has, Option.isSome_eq_false_iff, Option.isNone_iff_eq_none]

theorem get?_of_mem (hm : m.Distinct) (h : (name, v) ∈ m) : m.get? name = some v := by
  induction m with
  | nil => simp at h
  | cons e rest ih =>
    obtain ⟨k, w⟩ := e
    rw [Distinct, names, List.map_cons, List.nodup_cons] at hm
    rcases List.mem_cons.1 h with he | h
    · cases he
      simp [get?]
    · have hne : k ≠ name := by
        rintro rfl
        exact hm.1 (List.mem_map.2 ⟨_, h, rfl⟩)
      simp only [get?, hne, ↓reduceIte]
      exact ih hm.2 h

theorem get?_put (m : Entries α) (name x : String) (v : α) :
    (m.put name v).get? x = if x = name then some v else m.get? x := by
  split
  · next h => rw [h, get?_put_self]
  · next h => exact get?_put_of_ne m v h

theorem names_put_of_mem (h : name ∈ m.names) : (m.put name v).names = m.names := by
  rw [names_put, if_pos h]

theorem names_put_of_not_mem (h : name ∉ m.names) :
    (m.put name v).names = m.names ++ [name] := by
  rw [names_put, if_neg h]

@[simp] theorem mem_names_put : x ∈ (m.put name v).names ↔ x = name ∨ x ∈ m.names := by
  by_cases h : name ∈ m.names
  · rw [names_put_of_mem h]
    constructor
    · exact .inr
    · rintro (rfl | hx)
      · exact h
      · exact hx
  · rw [names_put_of_not_mem h, List.mem_append, List.mem_singleton, or_comm]

/-- A new name goes to the end. -/
theorem put_eq_concat (h : m.get? name = none) (v : α) : m.put name v = m ++ [(name, v)] := by
  induction m with
  | nil => rfl
  | cons e rest ih =>
    obtain ⟨k, w⟩ := e
    rw [get?] at h
    split at h
    · cases h
    · next hk => rw [put, if_neg hk, ih h, List.cons_append]

theorem length_put (m : Entries α) (name : String) (v : α) :
    (m.put name v).length = if m.has name then m.length else m.length + 1 := by
  have hlength (m : Entries α) : m.names.length = m.length := List.length_map _
  rw [← hlength, names_put, ← hlength]
  by_cases h : name ∈ m.names
  · rw [if_pos h, if_pos (has_iff.2 h)]
  · rw [if_neg h, if_neg (mt has_iff.1 h), List.length_append, List.length_singleton]

/-- Writing what is there already changes nothing. -/
theorem put_eq_self (h : m.get? name = some v) : m.put name v = m := by
  induction m with
  | nil => simp [get?] at h
  | cons e rest ih =>
    obtain ⟨k, w⟩ := e
    by_cases hk : k = name
    · simp only [get?, hk, ↓reduceIte, Option.some.injEq] at h
      simp [Entries.put, hk, h]
    · simp only [get?, hk, ↓reduceIte] at h
      simp [Entries.put, hk, ih h]

@[simp] theorem names_update (m : Entries α) (name : String) (f : α → α) :
    (m.update name f).names = m.names := by
  simp only [names, update, List.map_map]
  apply List.map_congr_left
  intro e _
  simp only [Function.comp_apply]
  split <;> rfl

theorem get?_update (m : Entries α) (name x : String) (f : α → α) :
    (m.update name f).get? x = if x = name then (m.get? x).map f else m.get? x := by
  induction m with
  | nil => simp [update, get?]
  | cons e rest ih =>
    obtain ⟨k, v⟩ := e
    have he : update ((k, v) :: rest) name f =
        (if k = name then (k, f v) else (k, v)) :: update rest name f := rfl
    rw [he]
    by_cases hk : k = name
    · by_cases hx : k = x
      · have hxn : x = name := hx.symm.trans hk
        simp [get?, hk, hxn]
      · rw [if_pos hk]
        simp only [get?, hx, ↓reduceIte]
        exact ih
    · by_cases hx : k = x
      · have hxn : x ≠ name := fun he => hk (hx.trans he)
        simp [get?, hx, hxn]
      · rw [if_neg hk]
        simp only [get?, hx, ↓reduceIte]
        exact ih

theorem Distinct.update (hm : m.Distinct) (name : String) (f : α → α) :
    (m.update name f).Distinct := by
  rw [Distinct, names_update]
  exact hm

theorem names_erase (m : Entries α) (name : String) :
    (m.erase name).names = m.names.filter (· ≠ name) := by
  simp only [names, erase, List.filter_map]
  congr 1
  apply List.filter_congr
  intro e _
  by_cases h : e.1 = name <;> simp [h]

theorem get?_erase (m : Entries α) (name x : String) :
    (m.erase name).get? x = if x = name then none else m.get? x := by
  split
  · next h => rw [h, get?_erase_self]
  · next h => exact get?_erase_of_ne m h

theorem Distinct.erase (hm : m.Distinct) (name : String) : (m.erase name).Distinct := by
  rw [Distinct, names_erase]
  exact List.Nodup.filter _ hm

theorem erase_eq_self (h : m.get? name = none) : m.erase name = m := by
  apply List.filter_eq_self.2
  intro e he
  rw [bne_iff_ne]
  rintro rfl
  exact get?_eq_none_iff.1 h (List.mem_map_of_mem he)

theorem get?_eraseAll (ids : List String) (m : Entries α) (x : String) :
    (ids.foldl Entries.erase m).get? x = if x ∈ ids then none else m.get? x := by
  induction ids generalizing m with
  | nil => simp
  | cons id rest ih =>
    rw [List.foldl_cons, ih, get?_erase]
    by_cases h : x ∈ rest
    · simp [h]
    · by_cases he : x = id <;> simp [h, he]

theorem Distinct.eraseAll (hm : m.Distinct) (ids : List String) :
    (ids.foldl Entries.erase m).Distinct := by
  induction ids generalizing m with
  | nil => exact hm
  | cons id rest ih => exact ih (hm.erase id)

theorem get?_mapWith (m : Entries α) (f : String → α → β) (x : String) :
    get? (m.map fun e => (e.1, f e.1 e.2)) x = (m.get? x).map (f x) := by
  induction m with
  | nil => rfl
  | cons e rest ih =>
    obtain ⟨k, v⟩ := e
    by_cases h : k = x
    · simp [get?, h]
    · simpa [get?, h] using ih

theorem get?_map (m : Entries α) (f : α → β) (x : String) :
    get? (m.map fun e => (e.1, f e.2)) x = (m.get? x).map f := get?_mapWith m (fun _ => f) x

theorem get?_append (m n : Entries α) (x : String) :
    get? (m ++ n) x = (m.get? x).or (n.get? x) := by
  induction m with
  | nil => simp [get?]
  | cons e rest ih =>
    obtain ⟨k, v⟩ := e
    by_cases h : k = x
    · simp [get?, h]
    · simpa [get?, h] using ih

theorem get?_map_pair (names : List String) (v : α) (x : String) :
    get? (names.map (·, v)) x = if x ∈ names then some v else none := by
  induction names with
  | nil => rfl
  | cons name rest ih =>
    rw [List.map_cons, get?, ih]
    by_cases h : name = x
    · simp [h]
    · simp [h, Ne.symm h]

theorem get?_extend_of_forall {n : Entries α} (hu : ∀ w, (name, w) ∈ n → w = v)
    (hm : m.get? name = some v ∨ ∃ w, (name, w) ∈ n) : (m.extend n).get? name = some v := by
  induction n generalizing m with
  | nil => exact hm.resolve_right (by simp)
  | cons e rest ih =>
    refine ih (fun w hw => hu w (List.mem_cons_of_mem _ hw)) ?_
    rw [get?_put]
    by_cases he : name = e.1
    · rw [if_pos he, hu e.2 (by rw [he]; exact List.mem_cons_self)]
      exact .inl rfl
    · rw [if_neg he]
      refine hm.imp_right ?_
      rintro ⟨w, hw⟩
      rcases List.mem_cons.1 hw with rfl | hw
      · exact absurd rfl he
      · exact ⟨w, hw⟩

/-- A name with one value has this value in the map. -/
theorem get?_ofList_of_forall {l : List (String × α)} (hl : (name, v) ∈ l)
    (hu : ∀ w, (name, w) ∈ l → w = v) : (ofList l).get? name = some v :=
  get?_extend_of_forall hu (.inr ⟨v, hl⟩)

theorem mem_extend {n : Entries α} {e : String × α} (h : e ∈ m.extend n) : e ∈ m ∨ e ∈ n := by
  induction n generalizing m with
  | nil => exact .inl h
  | cons a rest ih =>
    rcases ih h with h | h
    · rcases mem_put h with rfl | h
      · exact .inr List.mem_cons_self
      · exact .inl h
    · exact .inr (List.mem_cons_of_mem _ h)

theorem mem_of_mem_ofList {l : List (String × α)} {e : String × α} (h : e ∈ ofList l) : e ∈ l :=
  (mem_extend h).resolve_left List.not_mem_nil

theorem Distinct.extend (hm : m.Distinct) (n : Entries α) : (m.extend n).Distinct := by
  induction n generalizing m with
  | nil => exact hm
  | cons a rest ih => exact ih (hm.put a.1 a.2)

theorem distinct_ofList (l : List (String × α)) : (ofList l).Distinct :=
  Distinct.extend (m := []) List.nodup_nil l

/-- Every entry of the first map is found in the second. -/
def Within (m n : Entries α) : Prop := ∀ name v, m.get? name = some v → n.get? name = some v

theorem Within.refl (m : Entries α) : m.Within m := fun _ _ h => h

theorem Within.trans {k : Entries α} (h : m.Within n) (h' : n.Within k) : m.Within k :=
  fun name v hv => h' name v (h name v hv)

theorem Within.has (h : m.Within n) (hm : m.has name = true) : n.has name = true := by
  obtain ⟨v, hv⟩ := mem_names_iff.1 (has_iff.1 hm)
  exact has_iff.2 (mem_names_iff.2 ⟨v, h name v hv⟩)

theorem mem_names_concat {last : String × α} :
    name ∈ names (m ++ [last]) ↔ name ∈ m.names ∨ name = last.1 := by
  rw [names, List.map_append, List.mem_append]
  exact or_congr_right List.mem_singleton

theorem distinct_concat {last : String × α} (h : Distinct (m ++ [last])) :
    m.Distinct ∧ last.1 ∉ m.names := by
  rw [Distinct, names, List.map_append, List.map_singleton, List.nodup_append] at h
  exact ⟨h.1, fun hm => h.2.2 _ hm _ (List.mem_singleton_self _) rfl⟩

theorem foldl_eq_self {f : α → β → α} {a : α} {l : List β} (h : ∀ b ∈ l, f a b = a) :
    l.foldl f a = a := by
  induction l with
  | nil => rfl
  | cons b rest ih =>
    rw [List.forall_mem_cons] at h
    rw [List.foldl_cons, h.1]
    exact ih h.2

theorem mem_names_extend (n : Entries α) (h : name ∈ m.names) : name ∈ (m.extend n).names := by
  induction n generalizing m with
  | nil => exact h
  | cons e rest ih => exact ih (mem_names_put.2 (.inr h))

theorem extend_eq_self {n : Entries α} (h : ∀ e ∈ n, m.get? e.1 = some e.2) : m.extend n = m :=
  foldl_eq_self fun e he => put_eq_self (h e he)

/-- The later map covers the earlier one. -/
theorem get?_extend (m n : Entries α) (name : String) :
    (m.extend n).get? name = ((ofList n).get? name).or (m.get? name) := by
  induction n using List.reverseRecOn with
  | nil => rfl
  | append_singleton init last ih =>
    have hconcat (m : Entries α) : m.extend (init ++ [last]) = (m.extend init).put last.1 last.2 := by
      rw [extend, List.foldl_append]
      rfl
    rw [hconcat, ofList, hconcat, get?_put, get?_put, ih]
    split
    · rfl
    · rfl

theorem get?_extend_of_not_mem {n : Entries α} (h : name ∉ n.names) :
    (m.extend n).get? name = m.get? name := by
  induction n generalizing m with
  | nil => rfl
  | cons e rest ih =>
    obtain ⟨hne, hrest⟩ : name ≠ e.1 ∧ name ∉ names rest := by
      simpa [names, not_or] using h
    exact (ih hrest).trans (get?_put_of_ne m e.2 hne)

/-- The last value for a name is the one that stays. -/
theorem get?_extend_of_last {before after : Entries α} (h : name ∉ after.names) :
    (m.extend (before ++ (name, v) :: after)).get? name = some v := by
  rw [extend, List.foldl_append]
  exact (get?_extend_of_not_mem h).trans (get?_put_self _ name v)

/-- Values for names that are not there yet. -/
theorem get?_foldl_absent (f : String → α → β) (l : Entries α) (m : Entries β) (name : String) :
    get? (l.foldl (fun acc e => if acc.has e.1 then acc else acc.put e.1 (f e.1 e.2)) m) name =
      (m.get? name).or ((l.get? name).map (f name)) := by
  induction l generalizing m with
  | nil => exact Option.or_none.symm
  | cons e rest ih =>
    obtain ⟨k, v⟩ := e
    rw [List.foldl_cons, ih, get?]
    by_cases hk : k = name
    · rw [if_pos hk, hk]
      cases hm : m.get? name with
      | none =>
        have hhas : m.has name = false := has_eq_false_iff.2 hm
        rw [hhas, if_neg Bool.false_ne_true, get?_put_self]
        rfl
      | some w =>
        have hhas : m.has name = true := Option.isSome_of_eq_some hm
        rw [if_pos hhas, hm]
        rfl
    · rw [if_neg hk]
      split
      · rfl
      · rw [get?_put_of_ne _ _ (Ne.symm hk)]

theorem Distinct.foldl_absent (hm : m.Distinct) (f : String → β → α) (l : Entries β) :
    Distinct (l.foldl (fun acc e => if acc.has e.1 then acc else acc.put e.1 (f e.1 e.2)) m) := by
  induction l generalizing m with
  | nil => exact hm
  | cons e rest ih =>
    rw [List.foldl_cons]
    split
    · exact ih hm
    · exact ih (hm.put e.1 _)

/-- A map is what its names hold, in their order. -/
theorem eq_of_get?_eq (hm : m.Distinct) (hnames : m.names = n.names)
    (h : ∀ name, m.get? name = n.get? name) : m = n := by
  induction m generalizing n with
  | nil => exact (List.map_eq_nil_iff.1 hnames.symm).symm
  | cons e rest ih =>
    obtain ⟨k, v⟩ := e
    have hd : k ∉ names rest ∧ Distinct rest := List.nodup_cons.1 hm
    cases n with
    | nil => cases hnames
    | cons e' rest' =>
      obtain ⟨k', w⟩ := e'
      obtain ⟨rfl, hrest⟩ : k = k' ∧ names rest = names rest' := List.cons.inj hnames
      have hv := h k
      rw [get?, get?, if_pos rfl, if_pos rfl, Option.some_inj] at hv
      rw [hv, ih hd.2 hrest fun name => ?_]
      by_cases hk : k = name
      · rw [← hk, get?_eq_none_iff.2 hd.1]
        exact (get?_eq_none_iff.2 (hrest ▸ hd.1)).symm
      · have hname := h name
        rwa [get?, get?, if_neg hk, if_neg hk] at hname

/-- Maps of one size where each name of the first has a related value in the second are related
name by name. -/
theorem forall_rel_iff {R : α → β → Prop} {n : Entries β} (hm : m.Distinct) (hn : n.Distinct) :
    (m.length = n.length ∧ ∀ e ∈ m, ∃ v, n.get? e.1 = some v ∧ R e.2 v) ↔
      ∀ name, Option.Rel R (m.get? name) (n.get? name) := by
  constructor
  · intro ⟨hlen, h⟩ name
    have hsub : m.names ⊆ n.names := by
      intro k hk
      obtain ⟨v, hv⟩ := mem_names_iff.1 hk
      obtain ⟨w, hw, _⟩ := h _ (mem_of_get? hv)
      exact mem_names_iff.2 ⟨w, hw⟩
    have hperm : m.names.Perm n.names := by
      apply (hm.subperm hsub).perm_of_length_le
      rw [names, names, List.length_map, List.length_map]
      exact Nat.le_of_eq hlen.symm
    cases hx : m.get? name with
    | none =>
      have hnone : n.get? name = none := by
        rw [get?_eq_none_iff] at hx ⊢
        exact fun hk => hx (hperm.mem_iff.2 hk)
      rw [hnone]
      exact .none
    | some x =>
      obtain ⟨y, hy, he⟩ := h _ (mem_of_get? hx)
      rw [hy]
      exact .some he
  · intro h
    have hnames : ∀ k, k ∈ m.names ↔ k ∈ n.names := by
      intro k
      rw [mem_names_iff, mem_names_iff]
      have hk := h k
      cases hx : m.get? k <;> cases hy : n.get? k <;> rw [hx, hy] at hk <;> cases hk <;> simp
    constructor
    · have hperm : m.names.Perm n.names := (List.perm_ext_iff_of_nodup hm hn).2 hnames
      have hlen := hperm.length_eq
      rwa [names, names, List.length_map, List.length_map] at hlen
    · intro e he
      have hk := h e.1
      rw [get?_of_mem hm he] at hk
      exact exists_of_rel hk

end Entries

end FormLayout
