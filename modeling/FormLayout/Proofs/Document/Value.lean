import FormLayout.Document.Value
import FormLayout.Proofs.Entries
/-!
Values as they are read from documents: no object repeats a name. Equality of such values compares
objects name by name.
-/

namespace FormLayout
set_option autoImplicit true

theorem Number.equal_refl (n : Number) : n.equal n = true := by
  cases n with
  | integer n => exact beq_self_eq_true n
  | float x => exact x.equal_refl

theorem Number.equal_symm {m n : Number} (h : m.equal n = true) : n.equal m = true := by
  cases m with
  | integer m =>
    cases n with
    | integer n => exact eq_of_beq h ▸ beq_self_eq_true n
    | float y => cases h
  | float x =>
    cases n with
    | integer n => cases h
    | float y => exact (y.equal_comm x).trans h

namespace Value

/-- No object in the value repeats a name. -/
inductive Proper : Value → Prop where
  | null : Proper .null
  | bool (b : Bool) : Proper (.bool b)
  | number (n : Number) : Proper (.number n)
  | string (s : String) : Proper (.string s)
  | array {items : List Value} : (∀ v ∈ items, Proper v) → Proper (.array items)
  | object {fields : Fields} : fields.Distinct → (∀ e ∈ fields, Proper e.2) →
    Proper (.object fields)

theorem proper_object_iff {fields : Fields} :
    Proper (.object fields) ↔ fields.Distinct ∧ ∀ e ∈ fields, e.2.Proper :=
  ⟨fun | .object hd he => ⟨hd, he⟩, fun h => .object h.1 h.2⟩

theorem Proper.get? {fields : Fields} (h : Proper (.object fields))
    (hv : fields.get? name = some v) : v.Proper :=
  (proper_object_iff.1 h).2 _ (Entries.mem_of_get? hv)

theorem Proper.distinct {fields : Fields} (h : Proper (.object fields)) : fields.Distinct :=
  (proper_object_iff.1 h).1

theorem proper_empty : Proper (.object []) := .object List.nodup_nil (by simp)

theorem proper_fields {v : Option Value} (h : ∀ w, v = some w → w.Proper) :
    Proper (.object ((v.bind Value.fields?).getD [])) := by
  cases v with
  | none => exact proper_empty
  | some w =>
    cases w with
    | object m => exact h _ rfl
    | _ => exact proper_empty

theorem Proper.put {fields : Fields} (h : Proper (.object fields)) (name : String)
    (hv : v.Proper) : Proper (.object (fields.put name v)) := by
  refine .object (h.distinct.put name v) fun e he => ?_
  rcases Entries.mem_put he with rfl | he
  · exact hv
  · exact (proper_object_iff.1 h).2 e he

theorem Proper.erase {fields : Fields} (h : Proper (.object fields)) (name : String) :
    Proper (.object (fields.erase name)) :=
  .object (h.distinct.erase name) fun e he => (proper_object_iff.1 h).2 e (List.mem_of_mem_filter he)

theorem equalItems_iff {m n : List Value} :
    equalItems m n = true ↔ List.Forall₂ (fun x y => equal x y = true) m n := by
  induction m generalizing n with
  | nil => cases n <;> simp [equalItems]
  | cons x m ih => cases n <;> simp [equalItems, ih]

theorem equalFields_iff {m n : Fields} : equalFields m n = true ↔
    ∀ e ∈ m, ∃ v, n.get? e.1 = some v ∧ equal e.2 v = true := by
  induction m with
  | nil => simp [equalFields]
  | cons e m ih =>
    obtain ⟨k, x⟩ := e
    rw [equalFields, Bool.and_eq_true, ih, List.forall_mem_cons]
    cases n.get? k <;> simp

/-- In equal objects each name has equal values. -/
theorem equal_object_iff {m n : Fields} (hm : m.Distinct) (hn : n.Distinct) :
    equal (.object m) (.object n) = true ↔
      ∀ name, Option.Rel (fun x y => equal x y = true) (m.get? name) (n.get? name) := by
  rw [equal, Bool.and_eq_true, beq_iff_eq, equalFields_iff]
  exact Entries.forall_rel_iff (R := fun x y => equal x y = true) hm hn

/-- An object that is equal to one without fields has none. -/
theorem eq_nil_iff_of_equal {m n : Fields} (h : equal (.object m) (.object n) = true) :
    m = [] ↔ n = [] := by
  rw [equal, Bool.and_eq_true, beq_iff_eq] at h
  rw [← List.length_eq_zero_iff, h.1, List.length_eq_zero_iff]

theorem equal_refl {v : Value} (h : v.Proper) : v.equal v = true := by
  induction h with
  | null => rfl
  | bool b => simp [equal]
  | number n => exact n.equal_refl
  | string s => simp [equal]
  | array _ ih =>
    rw [equal, equalItems_iff, List.forall₂_same]
    exact ih
  | @object fields hd _ ih =>
    apply (equal_object_iff hd hd).2
    intro name
    cases hv : fields.get? name with
    | none => exact .none
    | some v => exact .some (ih _ (Entries.mem_of_get? hv))

theorem forall₂_symm {R : α → α → Prop} {xs ys : List α} (h : List.Forall₂ R xs ys)
    (he : ∀ x ∈ xs, ∀ y ∈ ys, R x y → R y x) : List.Forall₂ R ys xs := by
  induction h with
  | nil => exact .nil
  | cons hxy _ ih =>
    have hrest := ih fun x hx y hy => he x (List.mem_cons_of_mem _ hx) y (List.mem_cons_of_mem _ hy)
    exact .cons (he _ List.mem_cons_self _ List.mem_cons_self hxy) hrest

theorem equal_symm (hx : Proper x) : ∀ y, Proper y → equal x y = true → equal y x = true := by
  induction hx with
  | null =>
    intro y _ h
    cases y with
    | null => rfl
    | _ => cases h
  | bool b =>
    intro y _ h
    cases y with
    | bool c => exact eq_of_beq h ▸ beq_self_eq_true c
    | _ => cases h
  | number m =>
    intro y _ h
    cases y with
    | number n => exact Number.equal_symm h
    | _ => cases h
  | string s =>
    intro y _ h
    cases y with
    | string t => exact eq_of_beq h ▸ beq_self_eq_true t
    | _ => cases h
  | array _ ih =>
    intro y hy h
    cases y with
    | array ys =>
      cases hy with
      | array hys =>
        rw [equal, equalItems_iff] at h ⊢
        exact forall₂_symm h fun x hx y hy => ih x hx y (hys y hy)
    | _ => cases h
  | @object m hm _ ih =>
    intro y hy h
    cases y with
    | object n =>
      apply (equal_object_iff hy.distinct hm).2
      intro name
      have hrel := (equal_object_iff hm hy.distinct).1 h name
      cases hv : Entries.get? m name with
      | none =>
        rw [hv] at hrel
        rw [eq_none_of_rel hrel]
        exact .none
      | some v =>
        obtain ⟨w, hw, hvw⟩ := exists_of_rel (hv ▸ hrel)
        rw [hw]
        exact .some (ih _ (Entries.mem_of_get? hv) w (hy.get? hw) hvw)
    | _ => cases h

theorem distinct_ofFields_iff {m : Entries Fields} :
    Entries.Distinct (m.map fun e => (e.1, object e.2)) ↔ m.Distinct := by
  rw [Entries.Distinct, Entries.names, List.map_map]
  rfl

theorem proper_ofFields_iff {m : Entries Fields} : Proper (.ofFields m) ↔
    m.Distinct ∧ ∀ name fields, m.get? name = some fields → Proper (.object fields) := by
  rw [ofFields, proper_object_iff, distinct_ofFields_iff]
  refine and_congr_right fun hd => ⟨fun h name fields hf => ?_, fun h e he => ?_⟩
  · exact h _ (List.mem_map_of_mem (Entries.mem_of_get? hf))
  · obtain ⟨a, ha, rfl⟩ := List.mem_map.1 he
    exact h a.1 a.2 (Entries.get?_of_mem hd ha)

theorem equal_ofFields_iff {m n : Entries Fields} (hm : m.Distinct) (hn : n.Distinct) :
    equal (.ofFields m) (.ofFields n) = true ↔ ∀ name,
      Option.Rel (fun x y => equal (.object x) (.object y) = true) (m.get? name) (n.get? name) := by
  rw [ofFields, ofFields, equal_object_iff (distinct_ofFields_iff.2 hm) (distinct_ofFields_iff.2 hn)]
  refine forall_congr' fun name => ?_
  rw [Entries.get?_map, Entries.get?_map]
  cases m.get? name <;> cases n.get? name <;> simp

/-- Putting an equal value in the place of another gives an equal object. -/
theorem equal_put {fields : Fields} (h : Proper (.object fields)) (hw : fields.get? name = some w)
    (hv : equal v w = true) : equal (.object (fields.put name v)) (.object fields) = true := by
  apply (equal_object_iff (h.distinct.put name v) h.distinct).2
  intro k
  rw [Entries.get?_put]
  split
  · next hk =>
    rw [hk, hw]
    exact .some hv
  · cases hx : fields.get? k with
    | none => exact .none
    | some x => exact .some (equal_refl (h.get? hx))

end Value

end FormLayout
