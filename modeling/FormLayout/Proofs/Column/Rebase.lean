import FormLayout.Proofs.Column.Merge
/-!
Taking a derived configuration from one base to another: what it changes of the first is laid over
the second. It keeps its own values where it differs from the first base, and has those of the second
elsewhere.
-/

namespace FormLayout
set_option autoImplicit true
open Value

namespace Column

/-- The value at some keys, each looked up in the object before. -/
def at? : Option Value → List String → Option Value
  | v, [] => v
  | some (.object fields), key :: rest => at? (Entries.get? fields key) rest
  | _, _ :: _ => none

theorem at?_none (path : List String) : at? none path = none := by
  cases path <;> rfl

theorem at?_append (v : Option Value) (path inner : List String) :
    at? v (path ++ inner) = at? (at? v path) inner := by
  induction path generalizing v with
  | nil => rfl
  | cons key rest ih =>
    rw [List.cons_append]
    cases v with
    | none => exact (at?_none inner).symm
    | some v =>
      cases v with
      | object fields => exact ih (Entries.get? fields key)
      | _ => exact (at?_none inner).symm

theorem at?_cons (v : Option Value) (key : String) (rest : List String) :
    at? v (key :: rest) = at? (at? v [key]) rest :=
  at?_append v [key] rest

theorem exists_object_of_at? (h : at? v (key :: rest) = some w) : ∃ m, v = some (.object m) := by
  cases v with
  | none => cases h
  | some v =>
    cases v with
    | object m => exact ⟨m, rfl⟩
    | _ => cases h

theorem proper_at? {v : Option Value} (hv : ∀ x, v = some x → Proper x) :
    ∀ w, at? v path = some w → Proper w := by
  induction path generalizing v with
  | nil => exact hv
  | cons key rest ih =>
    intro w hw
    obtain ⟨m, rfl⟩ := exists_object_of_at? hw
    exact ih (fun x hx => (hv _ rfl).get? hx) w hw

/-- The places where a derived value differs from the one of the base: those where the base has none,
or one that is not loosely equal, while there are objects on both sides all the way. -/
inductive Differs : Option Value → Value → List String → Prop where
  | here : Apart existing v → (∀ x, existing = some x → looseEq x v = false) →
    Differs existing v []
  | inside {base derived : Fields} : derived.get? key = some v → Differs (base.get? key) v path →
    Differs (some (.object base)) (.object derived) (key :: path)

/-- Where there is a change, there is a place where the values differ. -/
theorem exists_differs (hv : Proper v) : ∀ existing c, change? existing v = some c →
    ∃ path, Differs existing v path := by
  have hself {existing : Option Value} {v c : Value} (ha : Apart existing v)
      (hc : change? existing v = some c) : ∃ path, Differs existing v path := by
    apply Exists.intro []
    apply Differs.here ha
    rintro x rfl
    rw [change?_of_apart ha] at hc
    dsimp only at hc
    split at hc
    · cases hc
    · next hloose => exact Bool.not_eq_true _ ▸ hloose
  induction hv with
  | @object derived hd he ih =>
    intro existing c hc
    rcases apart_or existing (.object derived) with ha | ⟨base, m, rfl, hm⟩
    · exact hself ha hc
    · cases hm
      rw [change?_objects] at hc
      split at hc
      · cases hc
      · next hne =>
        obtain ⟨e, hmem⟩ := List.exists_mem_of_ne_nil _ hne
        have hget := Entries.get?_of_mem (distinct_diff base hd) hmem
        rw [get?_diff base hd] at hget
        obtain ⟨v, hv, hchange⟩ := Option.bind_eq_some_iff.1 hget
        obtain ⟨path, hpath⟩ := ih _ (Entries.mem_of_get? hv) _ _ hchange
        exact ⟨e.1 :: path, .inside hv hpath⟩
  | _ => exact fun existing c hc => hself (fun _ _ _ h => by cases h) hc

section Cover

variable {existing : Option Value} {v w : Value} {path : List String}

theorem cover_none (v : Value) : cover none v = v :=
  cover_of_apart fun _ _ h => by cases h

theorem at?_cover_object (existing : Option Value) {overlay : Fields} (ho : overlay.Distinct)
    (key : String) (rest : List String) :
    at? (some (cover existing (.object overlay))) (key :: rest) =
      at? (match overlay.get? key with
        | some v => some (cover (at? existing [key]) v)
        | none => at? existing [key]) rest := by
  rcases apart_or existing (.object overlay) with ha | ⟨base, m, rfl, hm⟩
  · have hnone : at? existing [key] = none := by
      cases hx : at? existing [key] with
      | none => rfl
      | some x =>
        obtain ⟨m, rfl⟩ := exists_object_of_at? hx
        exact absurd rfl (ha m overlay rfl)
    rw [cover_of_apart ha, hnone, at?]
    cases overlay.get? key with
    | none => rfl
    | some v =>
      dsimp only
      rw [cover_none]
  · cases hm
    rw [cover, at?, get?_merge base ho]
    rfl

/-- A value that is laid over another one is there, and so is all that it contains. -/
theorem at?_cover (hv : Proper v) (h : at? (some v) path = some w) :
    at? (some (cover existing v)) path = some (cover (at? existing path) w) := by
  induction path generalizing existing v with
  | nil => rw [← Option.some.inj h, at?, at?]
  | cons key rest ih =>
    obtain ⟨overlay, hm⟩ := exists_object_of_at? h
    cases hm
    rw [at?] at h
    rw [at?_cover_object existing hv.distinct, at?_cons existing key rest]
    cases hget : Entries.get? overlay key with
    | none =>
      rw [hget, at?_none] at h
      cases h
    | some x =>
      rw [hget] at h
      exact ih (hv.get? hget) h

/-- Below the objects of a value that is laid over another one, the other one is there where they
have nothing. -/
theorem at?_cover_missing (hv : Proper v)
    (hway : ∀ way, way <+: path → way ≠ path → ∃ m, at? (some v) way = some (.object m))
    (h : at? (some v) path = none) : at? (some (cover existing v)) path = at? existing path := by
  induction path generalizing existing v with
  | nil => cases h
  | cons key rest ih =>
    obtain ⟨overlay, hm⟩ := hway [] List.nil_prefix (by simp)
    cases hm
    rw [at?] at h
    rw [at?_cover_object existing hv.distinct, at?_cons existing key rest]
    cases hget : Entries.get? overlay key with
    | none => rfl
    | some x =>
      rw [hget] at h
      apply ih (hv.get? hget) _ h
      intro way hprefix hne
      obtain ⟨m, hm⟩ := hway (key :: way) (List.cons_prefix_cons.2 ⟨rfl, hprefix⟩) (by simpa using hne)
      rw [at?, hget] at hm
      exact ⟨m, hm⟩

end Cover

/-- What becomes of an existing value when the change that leads from a previous value to a derived
one is laid over it. -/
def rebase (previous : Option Value) (derived : Value) (existing : Option Value) : Option Value :=
  ((change? previous derived).map (cover existing)).or existing

section Rebase

variable {previous existing : Option Value} {v w : Value} {path : List String}

theorem rebase_objects (previous derived existing : Fields) :
    rebase (some (.object previous)) (.object derived) (some (.object existing)) =
      some (.object (merge existing (diff previous derived))) := by
  rw [rebase, change?_objects]
  split
  · next hnil => rw [hnil, merge, Option.map_none, Option.none_or]
  · rw [Option.map_some, cover, Option.some_or]

theorem rebase_of_differs (h : Differs previous v []) : rebase previous v existing =
    some (cover existing v) := by
  cases h with
  | here ha hloose =>
    rw [rebase, change?_of_apart ha]
    cases previous with
    | none => rfl
    | some x =>
      dsimp only
      rw [if_neg (by rw [hloose x rfl]; exact Bool.false_ne_true)]
      rfl

theorem at?_rebase_object {base derived : Fields} (hd : derived.Distinct) (key : String)
    (rest : List String) :
    at? (rebase (some (.object base)) (.object derived) existing) (key :: rest) =
      at? (match derived.get? key with
        | some v => rebase (base.get? key) v (at? existing [key])
        | none => at? existing [key]) rest := by
  have hdiff := get?_diff base hd key
  rw [rebase, change?_objects]
  split
  · next hnil =>
    rw [hnil, Entries.get?] at hdiff
    rw [Option.map_none, Option.none_or, at?_cons]
    cases hget : derived.get? key with
    | none => rfl
    | some v =>
      rw [hget, Option.bind_some] at hdiff
      dsimp only
      rw [rebase, ← hdiff, Option.map_none, Option.none_or]
  · rw [Option.map_some, Option.some_or, at?_cover_object existing (distinct_diff base hd), hdiff]
    cases hget : derived.get? key with
    | none => rfl
    | some v =>
      dsimp only [Option.bind_some]
      rw [rebase]
      cases change? (base.get? key) v <;> rfl

/-- Where the values differ, the derived one is laid over the existing one. -/
theorem Differs.at?_rebase (h : Differs previous v path) (hv : Proper v) :
    ∃ w, at? (some v) path = some w ∧ ∀ existing,
      at? (rebase previous v existing) path = some (cover (at? existing path) w) := by
  induction h with
  | @here previous v ha hloose =>
    exact ⟨v, rfl, fun existing => rebase_of_differs (.here ha hloose)⟩
  | @inside key v path base derived hget _ ih =>
    obtain ⟨w, hw, hrebase⟩ := ih (hv.get? hget)
    apply Exists.intro w
    constructor
    · rw [at?, hget, hw]
    · intro existing
      rw [at?_rebase_object hv.distinct, hget, at?_cons existing key path]
      exact hrebase _

/-- Apart from the places where the values differ, the existing value stays. -/
theorem at?_rebase_outside (hv : Proper v)
    (h : ∀ place, Differs previous v place → ¬ place <+: path ∧ ¬ path <+: place) :
    at? (rebase previous v existing) path = at? existing path := by
  have hsame (hnone : change? previous v = none) : rebase previous v existing = existing := by
    rw [rebase, hnone, Option.map_none, Option.none_or]
  induction path generalizing previous existing v with
  | nil =>
    cases hc : change? previous v with
    | none => rw [hsame hc]
    | some c =>
      obtain ⟨place, hplace⟩ := exists_differs hv previous c hc
      exact absurd List.nil_prefix (h place hplace).2
  | cons key rest ih =>
    rcases apart_or previous v with ha | ⟨base, derived, rfl, rfl⟩
    · cases hc : change? previous v with
      | none => rw [hsame hc]
      | some c =>
        obtain ⟨place, hplace⟩ := exists_differs hv previous c hc
        cases place with
        | nil => exact absurd List.nil_prefix (h [] hplace).1
        | cons key rest =>
          cases hplace
          exact absurd rfl (ha _ _ rfl)
    · rw [at?_rebase_object hv.distinct, at?_cons existing key rest]
      cases hget : Entries.get? derived key with
      | none => rfl
      | some w =>
        apply ih (hv.get? hget)
        · intro place hplace
          have hout := h (key :: place) (.inside hget hplace)
          rwa [List.cons_prefix_cons, List.cons_prefix_cons, and_iff_right rfl,
            and_iff_right rfl] at hout
        · intro hnone
          rw [rebase, hnone, Option.map_none, Option.none_or]

end Rebase

/-- A configuration with what a derived one changed of a previous one, and all else of an existing
one. Inside an object that the previous one lacks, what the derived one has not is that of the existing
one as well. -/
structure ThreeWay (previous derived existing result : Fields) : Prop where
  own {place inner : List String} {v : Value} :
    Differs (some (.object previous)) (.object derived) place →
    at? (some (.object derived)) (place ++ inner) = some v → (∀ m, v ≠ .object m) →
    at? (some (.object result)) (place ++ inner) = some v
  object {place inner : List String} {m : Fields} :
    Differs (some (.object previous)) (.object derived) place →
    at? (some (.object derived)) (place ++ inner) = some (.object m) →
    ∃ m', at? (some (.object result)) (place ++ inner) = some (.object m')
  within {place inner : List String} :
    Differs (some (.object previous)) (.object derived) place →
    (∀ way, way <+: inner → way ≠ inner →
      ∃ m, at? (some (.object derived)) (place ++ way) = some (.object m)) →
    at? (some (.object derived)) (place ++ inner) = none →
    at? (some (.object result)) (place ++ inner) = at? (some (.object existing)) (place ++ inner)
  above {path inner : List String} :
    Differs (some (.object previous)) (.object derived) (path ++ inner) → inner ≠ [] →
    ∃ m, at? (some (.object result)) path = some (.object m)
  outside {path : List String} :
    (∀ place, Differs (some (.object previous)) (.object derived) place →
      ¬ place <+: path ∧ ¬ path <+: place) →
    at? (some (.object result)) path = at? (some (.object existing)) path

theorem threeWay {derived : Fields} (hd : Proper (.object derived)) (previous existing : Fields) :
    ThreeWay previous derived existing (merge existing (diff previous derived)) := by
  have hresult := rebase_objects previous derived existing
  -- At a place of difference, the result has the derived value, laid over the existing one.
  have hplace {place : List String}
      (h : Differs (some (.object previous)) (.object derived) place) : ∃ w, Proper w ∧
        at? (some (.object derived)) place = some w ∧
        at? (some (.object (merge existing (diff previous derived)))) place =
          some (cover (at? (some (.object existing)) place) w) := by
    obtain ⟨w, hw, hrebase⟩ := h.at?_rebase hd
    have hp := proper_at? (fun x hx => Option.some.inj hx ▸ hd) w hw
    rw [← hresult]
    exact ⟨w, hp, hw, hrebase _⟩
  have hinner {place inner : List String} {v : Value}
      (h : Differs (some (.object previous)) (.object derived) place)
      (hv : at? (some (.object derived)) (place ++ inner) = some v) :
      at? (some (.object (merge existing (diff previous derived)))) (place ++ inner) =
        some (cover (at? (some (.object existing)) (place ++ inner)) v) := by
    obtain ⟨w, hp, hw, hat⟩ := hplace h
    rw [at?_append, hw] at hv
    rw [at?_append, hat, at?_cover hp hv, at?_append (some (.object existing))]
  constructor
  case own =>
    intro place inner v h hv hne
    rw [hinner h hv, cover_of_apart fun _ derived _ => hne derived]
  case object =>
    intro place inner m h hv
    rw [hinner h hv]
    rcases apart_or (at? (some (.object existing)) (place ++ inner)) (.object m) with
      ha | ⟨base, m', he, hm⟩
    · rw [cover_of_apart ha]
      exact ⟨m, rfl⟩
    · cases hm
      rw [he, cover]
      exact ⟨_, rfl⟩
  case within =>
    intro place inner h hway hnone
    obtain ⟨w, hp, hw, hat⟩ := hplace h
    rw [at?_append, hw] at hnone
    rw [at?_append, hat, at?_append (some (.object existing))]
    apply at?_cover_missing hp _ hnone
    intro way hprefix hne
    obtain ⟨m, hm⟩ := hway way hprefix hne
    rw [at?_append, hw] at hm
    exact ⟨m, hm⟩
  case above =>
    intro path inner h hne
    obtain ⟨w, _, _, hat⟩ := hplace h
    obtain ⟨key, rest, rfl⟩ := List.exists_cons_of_ne_nil hne
    rw [at?_append] at hat
    exact exists_object_of_at? hat
  case outside =>
    intro path h
    rw [← hresult]
    exact at?_rebase_outside hd h

end Column

end FormLayout
