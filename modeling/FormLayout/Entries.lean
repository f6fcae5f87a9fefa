/-!
Ordered maps from names to values. Writing a known name keeps its place, a new name goes to the
end, and removing a name keeps the order of the others.
-/

namespace FormLayout

/-- A map from names to values, in the order in which the names were first written. -/
abbrev Entries (α : Type) := List (String × α)

namespace Entries

variable {α : Type}

def names (m : Entries α) : List String := m.map Prod.fst

def get? : Entries α → String → Option α
  | [], _ => none
  | (k, v) :: rest, name => if k = name then some v else get? rest name

def has (m : Entries α) (name : String) : Bool := (m.get? name).isSome

def put : Entries α → String → α → Entries α
  | [], name, v => [(name, v)]
  | (k, w) :: rest, name, v => if k = name then (k, v) :: rest else (k, w) :: put rest name v

def erase (m : Entries α) (name : String) : Entries α := m.filter (fun e => e.1 != name)

def update (m : Entries α) (name : String) (f : α → α) : Entries α :=
  m.map (fun e => if e.1 = name then (e.1, f e.2) else e)

/-- Writes every entry of the second map into the first. -/
def extend (m n : Entries α) : Entries α := n.foldl (fun acc e => acc.put e.1 e.2) m

/-- A repeated name keeps its first place and its last value. -/
def ofList (l : List (String × α)) : Entries α := extend [] l

/-- No name occurs twice. -/
def Distinct (m : Entries α) : Prop := m.names.Nodup

@[simp] theorem get?_put_self (m : Entries α) (name : String) (v : α) :
    (m.put name v).get? name = some v := by
  induction m with
  | nil => simp [put, get?]
  | cons e rest ih =>
    obtain ⟨k, w⟩ := e
    by_cases h : k = name <;> simp [put, get?, h, ih]

theorem get?_put_of_ne (m : Entries α) {name other : String} (v : α) (h : other ≠ name) :
    (m.put name v).get? other = m.get? other := by
  induction m with
  | nil => simp [put, get?, Ne.symm h]
  | cons e rest ih =>
    obtain ⟨k, w⟩ := e
    by_cases hk : k = name
    · simp [put, get?, hk, Ne.symm h]
    · rw [put, if_neg hk, get?, get?, ih]

@[simp] theorem get?_erase_self (m : Entries α) (name : String) :
    (m.erase name).get? name = none := by
  induction m with
  | nil => rfl
  | cons e rest ih =>
    obtain ⟨k, w⟩ := e
    by_cases h : k = name
    · simpa [erase, h] using ih
    · simpa [erase, h, get?] using ih

theorem get?_erase_of_ne (m : Entries α) {name other : String} (h : other ≠ name) :
    (m.erase name).get? other = m.get? other := by
  induction m with
  | nil => rfl
  | cons e rest ih =>
    obtain ⟨k, w⟩ := e
    by_cases hk : k = name
    · simpa [erase, hk, get?, Ne.symm h] using ih
    · have he : erase ((k, w) :: rest) name = (k, w) :: erase rest name := by simp [erase, hk]
      rw [he, get?, get?, ih]

theorem mem_of_get? {m : Entries α} {name : String} {v : α} (h : m.get? name = some v) :
    (name, v) ∈ m := by
  induction m with
  | nil => simp [get?] at h
  | cons e rest ih =>
    obtain ⟨k, w⟩ := e
    by_cases hk : k = name
    · simp only [get?, hk, ↓reduceIte, Option.some.injEq] at h
      simp [hk, h]
    · simp only [get?, hk, ↓reduceIte] at h
      exact List.mem_cons_of_mem _ (ih h)

theorem names_put (m : Entries α) (name : String) (v : α) :
    (m.put name v).names = if name ∈ m.names then m.names else m.names ++ [name] := by
  induction m with
  | nil => simp [put, names]
  | cons e rest ih =>
    obtain ⟨k, w⟩ := e
    by_cases h : k = name
    · simp [put, names, h]
    · have he : (put ((k, w) :: rest) name v).names = k :: (put rest name v).names := by
        simp [put, names, h]
      have hn : names ((k, w) :: rest) = k :: names rest := rfl
      rw [he, ih, hn]
      by_cases hm : name ∈ names rest <;> simp [hm, Ne.symm h]

theorem Distinct.put {m : Entries α} (hm : m.Distinct) (name : String) (v : α) :
    (m.put name v).Distinct := by
  rw [Distinct, names_put]
  split
  · exact hm
  · next h =>
    refine List.nodup_append.2 ⟨hm, by simp, fun x hx y hy => ?_⟩
    rw [List.mem_singleton.1 hy]
    exact fun he => h (he ▸ hx)

theorem mem_put {m : Entries α} {name : String} {v : α} {e : String × α} (h : e ∈ m.put name v) :
    e = (name, v) ∨ e ∈ m := by
  induction m with
  | nil => exact .inl (List.mem_singleton.1 h)
  | cons a rest ih =>
    obtain ⟨k, w⟩ := a
    rw [put] at h
    split at h
    · next hk =>
      rcases List.mem_cons.1 h with rfl | h
      · exact .inl (by rw [hk])
      · exact .inr (List.mem_cons_of_mem _ h)
    · rcases List.mem_cons.1 h with rfl | h
      · exact .inr List.mem_cons_self
      · exact (ih h).imp_right (List.mem_cons_of_mem _)

end Entries

end FormLayout
