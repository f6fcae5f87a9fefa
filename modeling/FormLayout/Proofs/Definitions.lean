import FormLayout.Definitions
import FormLayout.Proofs.Entries
/-!
Definitions over every run of calls. A field has the definition that it was given last, if it was
not taken back since; there is one statement for each table with a definition, and tables and fields
stand in the order in which they came to be defined.
-/

namespace FormLayout.Definitions
set_option autoImplicit true

theorem definition?_eq (d : Definitions) (table field : String) :
    d.definition? table field = (d.ofTable table).get? field := by
  rw [definition?, ofTable]
  cases d.get? table <;> rfl

theorem ofTable_define (d : Definitions) (table field definition t : String) :
    (d.define table field definition).ofTable t =
      if t = table then (d.ofTable table).put field definition else d.ofTable t := by
  rw [define, ofTable, Entries.get?_put]
  split <;> rfl

theorem ofTable_undefine (d : Definitions) (table field t : String) :
    (d.undefine table field).ofTable t =
      if t = table then (d.ofTable table).erase field else d.ofTable t := by
  rw [undefine]
  cases hd : d.get? table with
  | none =>
    dsimp only
    split
    · next ht =>
      rw [ht, ofTable, hd]
      rfl
    · rfl
  | some fields =>
    have htable : d.ofTable table = fields := by
      rw [ofTable, hd]
      rfl
    dsimp only
    rw [htable]
    split
    · next hempty =>
      rw [ofTable, Entries.get?_erase, List.isEmpty_iff.1 hempty]
      split <;> rfl
    · rw [ofTable, Entries.get?_put]
      split <;> rfl

theorem definition?_define (d : Definitions) (table field definition t x : String) :
    (d.define table field definition).definition? t x =
      if t = table ∧ x = field then some definition else d.definition? t x := by
  rw [definition?_eq, definition?_eq, ofTable_define]
  by_cases ht : t = table
  · rw [if_pos ht, ht, Entries.get?_put]
    simp
  · rw [if_neg ht, if_neg fun h => ht h.1]

theorem definition?_undefine (d : Definitions) (table field t x : String) :
    (d.undefine table field).definition? t x =
      if t = table ∧ x = field then none else d.definition? t x := by
  rw [definition?_eq, definition?_eq, ofTable_undefine]
  by_cases ht : t = table
  · rw [if_pos ht, ht, Entries.get?_erase]
    simp
  · rw [if_neg ht, if_neg fun h => ht h.1]

theorem undefine_undefine (d : Definitions) (table field : String) :
    (d.undefine table field).undefine table field = d.undefine table field := by
  rw [undefine.eq_def d]
  cases hd : d.get? table with
  | none =>
    dsimp only
    rw [undefine, hd]
  | some fields =>
    dsimp only
    split
    · rw [undefine, Entries.get?_erase_self]
    · next hne =>
      have hsame : (fields.erase field).erase field = fields.erase field :=
        Entries.erase_eq_self (Entries.get?_erase_self fields field)
      rw [undefine, Entries.get?_put_self]
      dsimp only
      rw [hsame, if_neg hne, Entries.put_eq_self (Entries.get?_put_self _ _ _)]

/-- A table goes when its last definition does. -/
theorem names_undefine (d : Definitions) (table field : String) :
    (d.undefine table field).names =
      if ((d.ofTable table).erase field).isEmpty then d.names.filter (· ≠ table) else d.names := by
  rw [undefine, ofTable]
  cases hd : d.get? table with
  | none =>
    have hname : table ∉ d.names := Entries.get?_eq_none_iff.1 hd
    refine (List.filter_eq_self.2 fun t ht => decide_eq_true ?_).symm
    rintro rfl
    exact hname ht
  | some fields =>
    dsimp only [Option.getD_some]
    split
    · rw [Entries.names_erase]
    · rw [Entries.names_put_of_mem (Entries.mem_names_iff.2 ⟨fields, hd⟩)]

/-- A change of the definitions. -/
inductive Call where
  | define (table field definition : String)
  | undefine (table field : String)

namespace Call

def apply (d : Definitions) : Call → Definitions
  | .define table field definition => d.define table field definition
  | .undefine table field => d.undefine table field

/-- The table and the field that a call is about. -/
def subject : Call → String × String
  | .define table field _ | .undefine table field => (table, field)

end Call

/-- The definitions after some calls, with none before the first one. -/
def run (calls : List Call) : Definitions := calls.foldl Call.apply []

/-- A field was given a definition, and no later call is about the field. -/
def Stands (calls : List Call) (table field definition : String) : Prop :=
  ∃ before after, calls = before ++ .define table field definition :: after ∧
    ∀ c ∈ after, c.subject ≠ (table, field)

def HasField (table field : String) (calls : List Call) : Prop :=
  ∃ definition, Stands calls table field definition

def HasTable (table : String) (calls : List Call) : Prop := ∃ field, HasField table field calls

/-- Something did not hold before the call of a number, counted from zero, and held after this and
each later call. -/
structure Since (P : List Call → Prop) (calls : List Call) (k : Nat) : Prop where
  lt_length : k < calls.length
  before : ¬ P (calls.take k)
  after (n : Nat) : k < n → n ≤ calls.length → P (calls.take n)

/-- The names of which something holds, each once, in the order in which it came to hold of them
last. -/
structure Ordered (P : String → List Call → Prop) (calls : List Call) (names : List String) :
    Prop where
  mem_iff {x : String} : x ∈ names ↔ P x calls
  nodup : names.Nodup
  since {x : String} : x ∈ names → ∃ k, Since (P x) calls k
  sorted : names.Pairwise fun x y =>
    ∀ j k, Since (P x) calls j → Since (P y) calls k → j < k

variable {calls : List Call} {c : Call}

theorem run_concat (calls : List Call) (c : Call) : run (calls ++ [c]) = c.apply (run calls) := by
  rw [run, List.foldl_append]
  rfl

theorem not_stands_nil : ¬ Stands [] table field definition := by
  rintro ⟨before, after, h, _⟩
  simp at h

theorem stands_concat : Stands (calls ++ [c]) table field definition ↔
    c = .define table field definition ∨
      c.subject ≠ (table, field) ∧ Stands calls table field definition := by
  constructor
  · rintro ⟨before, after, h, hafter⟩
    rcases List.eq_nil_or_concat after with rfl | ⟨init, last, rfl⟩
    · exact .inl (List.cons.inj (List.append_inj' h rfl).2).1
    · rw [List.concat_eq_append] at h hafter
      rw [← List.cons_append, ← List.append_assoc] at h
      obtain ⟨hcalls, hlast⟩ := List.append_inj' h rfl
      have hc : c = last := (List.cons.inj hlast).1
      refine .inr ⟨hafter c (by simp [hc]), before, init, hcalls, fun d hd => ?_⟩
      exact hafter d (List.mem_append_left _ hd)
  · rintro (rfl | ⟨hc, before, after, rfl, hafter⟩)
    · exact ⟨calls, [], rfl, by simp⟩
    · refine ⟨before, after ++ [c], by simp, fun d hd => ?_⟩
      rcases List.mem_append.1 hd with hd | hd
      · exact hafter d hd
      · rw [List.mem_singleton.1 hd]
        exact hc

theorem definition?_run (calls : List Call) (table field definition : String) :
    (run calls).definition? table field = some definition ↔
      Stands calls table field definition := by
  induction calls using List.reverseRecOn with
  | nil => exact iff_of_false (by rintro ⟨⟩) not_stands_nil
  | append_singleton calls c ih =>
    rw [run_concat, stands_concat]
    cases c with
    | define t f s =>
      rw [Call.apply, definition?_define, Call.subject]
      by_cases h : table = t ∧ field = f
      · obtain ⟨rfl, rfl⟩ := h
        simp
      · rw [if_neg h, ih]
        have hne : (t, f) ≠ (table, field) := fun he => h (by cases he; exact ⟨rfl, rfl⟩)
        have hother : Call.define t f s ≠ .define table field definition :=
          fun he => h (by cases he; exact ⟨rfl, rfl⟩)
        simp [hne, hother]
    | undefine t f =>
      rw [Call.apply, definition?_undefine, Call.subject]
      by_cases h : table = t ∧ field = f
      · obtain ⟨rfl, rfl⟩ := h
        simp
      · rw [if_neg h, ih]
        have hne : (t, f) ≠ (table, field) := fun he => h (by cases he; exact ⟨rfl, rfl⟩)
        simp [hne]

theorem get?_run_ne_nil (calls : List Call) (table : String) :
    (run calls).get? table ≠ some [] := by
  induction calls using List.reverseRecOn with
  | nil => exact nofun
  | append_singleton calls c ih =>
    rw [run_concat]
    cases c with
    | define t f s =>
      rw [Call.apply, define, Entries.get?_put]
      split
      · intro h
        have hname : f ∈ (((run calls).ofTable t).put f s).names :=
          Entries.mem_names_put.2 (.inl rfl)
        rw [Option.some.inj h] at hname
        cases hname
      · exact ih
    | undefine t f =>
      rw [Call.apply, undefine]
      split
      · exact ih
      · dsimp only
        split
        · rw [Entries.get?_erase]
          split
          · exact nofun
          · exact ih
        · next hne =>
          rw [Entries.get?_put]
          split
          · exact fun h => hne (List.isEmpty_iff.2 (Option.some.inj h))
          · exact ih

theorem mem_names_ofTable : field ∈ ((run calls).ofTable table).names ↔
    HasField table field calls := by
  simp only [Entries.mem_names_iff, ← definition?_eq, definition?_run]
  rfl

theorem mem_names_run : table ∈ (run calls).names ↔ HasTable table calls := by
  constructor
  · intro h
    obtain ⟨fields, hf⟩ := Entries.mem_names_iff.1 h
    have hne : fields ≠ [] := by
      rintro rfl
      exact get?_run_ne_nil calls table hf
    obtain ⟨e, he⟩ := List.exists_mem_of_ne_nil fields hne
    refine ⟨e.1, mem_names_ofTable.1 ?_⟩
    rw [ofTable, hf]
    exact List.mem_map_of_mem he
  · rintro ⟨field, hf⟩
    have hm := mem_names_ofTable.2 hf
    rw [ofTable] at hm
    cases h : (run calls).get? table with
    | none =>
      rw [h] at hm
      cases hm
    | some fields => exact Entries.mem_names_iff.2 ⟨fields, h⟩

theorem Since.concat {P : List Call → Prop} (h : Since P calls k) (hc : P (calls ++ [c])) :
    Since P (calls ++ [c]) k := by
  have hlt := h.lt_length
  refine ⟨by simp; omega, ?_, fun n hk hn => ?_⟩
  · rw [List.take_append_of_le_length (Nat.le_of_lt hlt)]
    exact h.before
  · rcases Nat.lt_or_ge calls.length n with hlast | hn'
    · rw [List.take_of_length_le (by simp; omega)]
      exact hc
    · rw [List.take_append_of_le_length hn']
      exact h.after n hk hn'

theorem Since.of_concat {P : List Call → Prop} (h : Since P (calls ++ [c]) k) (hc : P calls) :
    Since P calls k := by
  have hle : k ≤ calls.length := by
    have := h.lt_length
    simp at this
    omega
  have hlt : k < calls.length := by
    refine Nat.lt_of_le_of_ne hle fun he => h.before ?_
    rw [he, List.take_left]
    exact hc
  refine ⟨hlt, ?_, fun n hk hn => ?_⟩
  · have hb := h.before
    rwa [List.take_append_of_le_length hle] at hb
  · have ha := h.after n hk (by simp; omega)
    rwa [List.take_append_of_le_length hn] at ha

/-- What the last call brought about has held since this call. -/
theorem since_concat_iff {P : List Call → Prop} (h : ¬ P calls) (hc : P (calls ++ [c])) :
    Since P (calls ++ [c]) k ↔ k = calls.length := by
  constructor
  · intro hs
    have hlt := hs.lt_length
    rw [List.length_append, List.length_singleton] at hlt
    refine Nat.le_antisymm (by omega) (Nat.not_lt.1 fun hk => h ?_)
    have ha := hs.after calls.length hk (by simp)
    rwa [List.take_left] at ha
  · rintro rfl
    refine ⟨by simp, by rwa [List.take_left], fun n hk hn => ?_⟩
    rw [List.take_of_length_le (by simp; omega)]
    exact hc

namespace Ordered

variable {P : String → List Call → Prop} {names : List String}

theorem nil (h : ∀ x, ¬ P x []) : Ordered P [] [] where
  mem_iff {x} := iff_of_false List.not_mem_nil (h x)
  nodup := List.nodup_nil
  since h := nomatch h
  sorted := .nil

/-- A call that brings nothing new leaves the others in their order. -/
theorem sublist (h : Ordered P calls names) {rest : List String} (hs : rest.Sublist names)
    (hmem : ∀ x, x ∈ rest ↔ P x (calls ++ [c])) : Ordered P (calls ++ [c]) rest where
  mem_iff {x} := hmem x
  nodup := h.nodup.sublist hs
  since {x} hx := by
    obtain ⟨k, hk⟩ := h.since (hs.subset hx)
    exact ⟨k, hk.concat ((hmem x).1 hx)⟩
  sorted := by
    have hheld {x : String} (hx : x ∈ rest) : P x calls := h.mem_iff.1 (hs.subset hx)
    refine (h.sorted.sublist hs).imp_of_mem fun {x y} hx hy hxy j k hj hk => ?_
    exact hxy j k (hj.of_concat (hheld hx)) (hk.of_concat (hheld hy))

/-- A new name goes behind all others. -/
theorem concat (h : Ordered P calls names) {x : String} (hx : x ∉ names)
    (hmem : ∀ y, y ∈ names ++ [x] ↔ P y (calls ++ [c])) :
    Ordered P (calls ++ [c]) (names ++ [x]) where
  mem_iff {y} := hmem y
  nodup := List.nodup_append.2 ⟨h.nodup, List.nodup_singleton x, by
    rintro y hy z hz rfl
    exact hx (List.mem_singleton.1 hz ▸ hy)⟩
  since {y} hy := by
    have hnew := (hmem y).1 hy
    rcases List.mem_append.1 hy with hm | hm
    · obtain ⟨k, hk⟩ := h.since hm
      exact ⟨k, hk.concat hnew⟩
    · rw [List.mem_singleton.1 hm] at hnew ⊢
      exact ⟨_, (since_concat_iff (mt h.mem_iff.2 hx) hnew).2 rfl⟩
  sorted := by
    have hheld {y : String} (hy : y ∈ names) : P y calls := h.mem_iff.1 hy
    refine List.pairwise_append.2 ⟨?_, List.pairwise_singleton _ x, ?_⟩
    · refine h.sorted.imp_of_mem fun {y z} hy hz hyz j k hj hk => ?_
      exact hyz j k (hj.of_concat (hheld hy)) (hk.of_concat (hheld hz))
    · intro y hy z hz j k hj hk
      rw [List.mem_singleton.1 hz] at hk
      have hnew := (hmem x).1 (List.mem_append_right _ (List.mem_singleton_self x))
      rw [(since_concat_iff (mt h.mem_iff.2 hx) hnew).1 hk]
      exact (hj.of_concat (hheld hy)).lt_length

theorem put (h : Ordered P calls names) {x : String} {all : List String}
    (hall : all = if x ∈ names then names else names ++ [x])
    (hmem : ∀ y, y ∈ all ↔ P y (calls ++ [c])) : Ordered P (calls ++ [c]) all := by
  split at hall
  · subst hall
    exact h.sublist (.refl _) hmem
  · next hx =>
    subst hall
    exact h.concat hx hmem

end Ordered

theorem ordered_run (calls : List Call) : Ordered HasTable calls (run calls).names := by
  induction calls using List.reverseRecOn with
  | nil => exact .nil fun _ ⟨_, _, h⟩ => not_stands_nil h
  | append_singleton calls c ih =>
    have hmem (t : String) : t ∈ (run (calls ++ [c])).names ↔ HasTable t (calls ++ [c]) :=
      mem_names_run
    rw [run_concat] at hmem ⊢
    cases c with
    | define t f s => exact ih.put (Entries.names_put _ t _) hmem
    | undefine t f =>
      refine ih.sublist ?_ hmem
      rw [Call.apply, names_undefine]
      split
      · exact List.filter_sublist
      · exact .refl _

theorem ordered_ofTable (calls : List Call) (table : String) :
    Ordered (HasField table) calls ((run calls).ofTable table).names := by
  induction calls using List.reverseRecOn with
  | nil => exact .nil fun _ ⟨_, h⟩ => not_stands_nil h
  | append_singleton calls c ih =>
    have hmem (f : String) : f ∈ ((run (calls ++ [c])).ofTable table).names ↔
        HasField table f (calls ++ [c]) := mem_names_ofTable
    rw [run_concat] at hmem ⊢
    cases c with
    | define t f s =>
      rw [Call.apply, ofTable_define] at hmem ⊢
      split at hmem
      · next ht =>
        subst ht
        rw [if_pos rfl]
        exact ih.put (Entries.names_put _ f s) hmem
      · next ht =>
        rw [if_neg ht]
        exact ih.sublist (.refl _) hmem
    | undefine t f =>
      refine ih.sublist ?_ hmem
      rw [Call.apply, ofTable_undefine]
      split
      · next ht =>
        rw [ht, Entries.names_erase]
        exact List.filter_sublist
      · exact .refl _

/-- After any calls the definitions are those that were given last and not taken back since. There
is a statement for each table that has one, which lists the fields of the table, and both come in
the order in which they were defined; a new definition of a defined field keeps its place. -/
theorem run_calls (calls : List Call) :
    (∀ table field definition, (run calls).definition? table field = some definition ↔
        Stands calls table field definition) ∧
      (∀ table, (run calls).get? table ≠ some []) ∧
      ((run calls).isEmpty = true ↔
        ∀ table field definition, ¬ Stands calls table field definition) ∧
      ∃ tables : Entries (Entries String), Ordered HasTable calls tables.names ∧
        (∀ table fields, (table, fields) ∈ tables →
          Ordered (HasField table) calls fields.names ∧
            ∀ field definition, (field, definition) ∈ fields ↔
              Stands calls table field definition) ∧
        (run calls).statements = tables.map fun e =>
          "CREATE TABLE " ++ e.1 ++ " (\n" ++
            ",\n".intercalate (e.2.map fun line => "    " ++ line.1 ++ " " ++ line.2) ++ "\n);" := by
  have htables := ordered_run calls
  refine ⟨definition?_run calls, get?_run_ne_nil calls, ?_, run calls, htables, ?_, rfl⟩
  · rw [List.isEmpty_iff]
    constructor
    · rintro hnil table field definition h
      rw [← definition?_run, hnil] at h
      cases h
    · intro h
      by_contra hne
      obtain ⟨e, he⟩ := List.exists_mem_of_ne_nil _ hne
      obtain ⟨field, definition, hs⟩ := htables.mem_iff.1 (List.mem_map_of_mem he)
      exact h e.1 field definition hs
  · intro table fields hm
    have hfields : (run calls).ofTable table = fields := by
      rw [ofTable, Entries.get?_of_mem htables.nodup hm]
      rfl
    have hordered := ordered_ofTable calls table
    rw [hfields] at hordered
    refine ⟨hordered, fun field definition => ?_⟩
    rw [← definition?_run, definition?_eq, hfields]
    exact ⟨Entries.get?_of_mem hordered.nodup, Entries.mem_of_get?⟩

end FormLayout.Definitions
