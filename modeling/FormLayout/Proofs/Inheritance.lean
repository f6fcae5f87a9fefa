import Mathlib.Data.List.DropRight
import Mathlib.Data.Set.Card
import FormLayout.Inheritance
import FormLayout.Proofs.Entries
/-!
The memory of derived types over a base that changes. A field is answered from the base as it was when
the field was first resolved since it was dropped last, and the base is asked once for all that time.
-/

namespace FormLayout
set_option autoImplicit true
variable {id : String}

/-- The base table, as far as derived types look at it. -/
structure Base where
  tree : FormTree
  columns : Columns

namespace Base

def config? (b : Base) (id : String) : Option Fields := baseConfig? b.tree b.columns id

/-- The lookup of a field, with a record of what was asked and what the answer was. -/
def ask (b : Base) (id : String) : StateM (List (String × Option Fields)) (Option Fields) := do
  modify (· ++ [(id, b.config? id)])
  return b.config? id

end Base

/-- A memory in use, and what its base was asked so far. -/
structure Session where
  base : Base
  memory : Memory
  asked : List (String × Option Fields)

/-- What can happen to a memory and its base. -/
inductive Event where
  | resolve (id : String)
  | take (id : String)
  | invalidate (id : String)
  | clear
  | change (base : Base)

namespace Session

def start (b : Base) : Session := ⟨b, [], []⟩

def resolve (s : Session) (id : String) : Session × Option Fields :=
  let ((memory, found), asked) := (s.memory.resolveM s.base.ask id).run s.asked
  ({ s with memory, asked }, found)

def take (s : Session) (id : String) : Session × Option (Option Fields) :=
  let (memory, old) := s.memory.take id
  ({ s with memory }, old)

def invalidate (s : Session) (id : String) : Session × Bool :=
  let (memory, known) := s.memory.invalidate id
  ({ s with memory }, known)

def step (s : Session) : Event → Session
  | .resolve id => (s.resolve id).1
  | .take id => (s.take id).1
  | .invalidate id => (s.invalidate id).1
  | .clear => { s with memory := s.memory.clear }
  | .change base => { s with base }

/-- What a history leaves of a memory that was empty. -/
def run (b : Base) (h : List Event) : Session := h.foldl step (start b)

/-- What the base answered when it was asked for `id`, in the order in which it was asked. -/
def answers (s : Session) (id : String) : List (Option Fields) :=
  (s.asked.filter (·.1 = id)).map (·.2)

theorem run_concat (b : Base) (h : List Event) (e : Event) :
    run b (h ++ [e]) = (run b h).step e := by
  rw [run, List.foldl_concat, run]

theorem resolve_of_some {s : Session} (h : s.memory.get? id = some c) : s.resolve id = (s, c) := by
  rw [resolve, Memory.resolveM, h]
  rfl

theorem resolve_of_none {s : Session} (h : s.memory.get? id = none) : s.resolve id =
    (⟨s.base, s.memory.put id (s.base.config? id), s.asked ++ [(id, s.base.config? id)]⟩,
      s.base.config? id) := by
  rw [resolve, Memory.resolveM, h]
  rfl

/-- In a session a field is resolved as types resolve it. -/
theorem resolve_eq (s : Session) (id : String) :
    ((s.resolve id).1.memory, (s.resolve id).2) = s.memory.resolve s.base.config? id := by
  rw [Memory.resolve]
  cases h : s.memory.get? id with
  | some c => rw [resolve_of_some h]
  | none => rw [resolve_of_none h]

end Session

namespace Event

/-- Whether what is remembered of `id` is forgotten. -/
def drops (id : String) : Event → Bool
  | .take other | .invalidate other => other == id
  | .clear => true
  | .resolve _ | .change _ => false

def resolves (id : String) : Event → Bool
  | .resolve other => other == id
  | .take _ | .invalidate _ | .clear | .change _ => false

/-- Whether the event is no operation on another field than `id`. -/
def concerns (id : String) : Event → Bool
  | .resolve other | .take other | .invalidate other => other == id
  | .clear | .change _ => true

theorem drops_of_not_concerns {e : Event} (h : e.concerns id = false) : e.drops id = false := by
  cases e with
  | take other => exact h
  | invalidate other => exact h
  | clear => cases h
  | _ => rfl

theorem resolves_of_not_concerns {e : Event} (h : e.concerns id = false) :
    e.resolves id = false := by
  cases e with
  | resolve other => exact h
  | _ => rfl

theorem resolves_iff {e : Event} : e.resolves id = true ↔ e = .resolve id := by
  cases e with
  | resolve other => simp [resolves]
  | _ => simp [resolves]

end Event

namespace Base

/-- The base after an event. -/
def after (b : Base) : Event → Base
  | .change base => base
  | .resolve _ | .take _ | .invalidate _ | .clear => b

theorem after_of_not_concerns {e : Event} (h : e.concerns id = false) (b : Base) :
    b.after e = b := by
  cases e with
  | change base => cases h
  | _ => rfl

/-- The base after a history. -/
def afterAll (b : Base) (h : List Event) : Base := h.foldl after b

theorem afterAll_concat (b : Base) (h : List Event) (e : Event) :
    b.afterAll (h ++ [e]) = (b.afterAll h).after e := by
  rw [afterAll, List.foldl_concat, afterAll]

end Base

/-! What a history says about a field -/

/-- What happened after `id` was dropped last, or all of the history if it never was. -/
def sinceDrop (h : List Event) (id : String) : List Event := h.rtakeWhile fun e => !e.drops id

/-- What happened up to the last time at which `id` was dropped. -/
def untilDrop (h : List Event) (id : String) : List Event := h.rdropWhile fun e => !e.drops id

/-- What the base had as `id` when `id` was first resolved since it was dropped last. -/
def snapshot? (b : Base) (h : List Event) (id : String) : Option (Option Fields) :=
  if (sinceDrop h id).any (·.resolves id) then
    let before := untilDrop h id ++ (sinceDrop h id).takeWhile (!·.resolves id)
    some ((b.afterAll before).config? id)
  else none

theorem untilDrop_append_sinceDrop (h : List Event) (id : String) :
    untilDrop h id ++ sinceDrop h id = h := List.rdropWhile_append_rtakeWhile

theorem untilDrop_concat_of_drops {e : Event} (h : List Event) (hd : e.drops id = true) :
    untilDrop (h ++ [e]) id = h ++ [e] := List.rdropWhile_concat_neg _ _ _ (by simp [hd])

theorem untilDrop_concat {e : Event} (h : List Event) (hd : e.drops id = false) :
    untilDrop (h ++ [e]) id = untilDrop h id := List.rdropWhile_concat_pos _ _ _ (by simp [hd])

theorem sinceDrop_concat_of_drops {e : Event} (h : List Event) (hd : e.drops id = true) :
    sinceDrop (h ++ [e]) id = [] := List.rtakeWhile_concat_neg _ _ _ (by simp [hd])

theorem sinceDrop_concat {e : Event} (h : List Event) (hd : e.drops id = false) :
    sinceDrop (h ++ [e]) id = sinceDrop h id ++ [e] :=
  List.rtakeWhile_concat_pos _ _ _ (by simp [hd])

/-- What comes behind the first entry that fails a test does not change what stands before it. -/
theorem takeWhile_append_of_mem {p : α → Bool} {l : List α} (hl : a ∈ l) (ha : p a = false)
    (rest : List α) : (l ++ rest).takeWhile p = l.takeWhile p := by
  rw [List.takeWhile_append, if_neg]
  intro hlength
  have hself := (List.takeWhile_prefix p).eq_of_length hlength
  rw [List.takeWhile_eq_self_iff.1 hself a hl] at ha
  cases ha

theorem snapshot?_eq_none_iff : snapshot? b h id = none ↔ .resolve id ∉ sinceDrop h id := by
  simp [snapshot?, Event.resolves_iff]

theorem snapshot?_of_mem (hr : .resolve id ∈ sinceDrop h id) : snapshot? b h id =
    some ((b.afterAll (untilDrop h id ++
      (sinceDrop h id).takeWhile (!·.resolves id))).config? id) := by
  rw [snapshot?, if_pos]
  exact List.any_eq_true.2 ⟨_, hr, Event.resolves_iff.2 rfl⟩

theorem snapshot?_concat_of_drops {e : Event} (b : Base) (h : List Event)
    (hd : e.drops id = true) : snapshot? b (h ++ [e]) id = none := by
  rw [snapshot?_eq_none_iff, sinceDrop_concat_of_drops h hd]
  exact List.not_mem_nil

/-- The first time at which `id` was resolved stays the first. -/
theorem snapshot?_concat_of_some {e : Event} (hd : e.drops id = false)
    (hs : snapshot? b h id = some c) : snapshot? b (h ++ [e]) id = some c := by
  have hr : .resolve id ∈ sinceDrop h id := by
    by_contra hr
    rw [snapshot?_eq_none_iff.2 hr] at hs
    cases hs
  rw [← hs, snapshot?_of_mem hr, snapshot?_of_mem, untilDrop_concat h hd, sinceDrop_concat h hd,
    takeWhile_append_of_mem hr]
  · simp [Event.resolves]
  · rw [sinceDrop_concat h hd]
    exact List.mem_append_left _ hr

theorem snapshot?_concat_resolve (hs : snapshot? b h id = none) :
    snapshot? b (h ++ [.resolve id]) id = some ((b.afterAll h).config? id) := by
  have hall : ∀ e ∈ sinceDrop h id, (!e.resolves id) = true := by
    intro e he
    rw [Bool.not_eq_true', Bool.eq_false_iff]
    intro hr
    exact snapshot?_eq_none_iff.1 hs (Event.resolves_iff.1 hr ▸ he)
  have hfirst : (sinceDrop h id ++ [Event.resolve id]).takeWhile (!·.resolves id) = sinceDrop h id := by
    rw [List.takeWhile_append_of_pos hall]
    simp [Event.resolves]
  rw [snapshot?_of_mem, sinceDrop_concat h rfl, untilDrop_concat h rfl, hfirst,
    untilDrop_append_sinceDrop]
  rw [sinceDrop_concat h rfl]
  exact List.mem_append_right _ List.mem_cons_self

theorem snapshot?_concat_of_none {e : Event} (hr : e.resolves id = false)
    (hs : snapshot? b h id = none) : snapshot? b (h ++ [e]) id = none := by
  cases hd : e.drops id with
  | true => exact snapshot?_concat_of_drops b h hd
  | false =>
    rw [snapshot?_eq_none_iff] at hs ⊢
    rw [sinceDrop_concat h hd, List.mem_append, List.mem_singleton]
    rintro (hm | rfl)
    · exact hs hm
    · simp [Event.resolves] at hr

/-- One more event in the history of a field. -/
theorem snapshot?_concat (b : Base) (h : List Event) (e : Event) (id : String) :
    snapshot? b (h ++ [e]) id =
      if e.drops id then none
      else if e.resolves id then some ((snapshot? b h id).getD ((b.afterAll h).config? id))
      else snapshot? b h id := by
  cases hd : e.drops id with
  | true => exact snapshot?_concat_of_drops b h hd
  | false =>
    cases hs : snapshot? b h id with
    | some c =>
      rw [snapshot?_concat_of_some hd hs]
      simp
    | none =>
      cases hr : e.resolves id with
      | true =>
        cases Event.resolves_iff.1 hr
        exact snapshot?_concat_resolve hs
      | false => exact snapshot?_concat_of_none hr hs

/-- Events about other fields say nothing about a field. -/
theorem snapshot?_filter (b : Base) (h : List Event) (id : String) :
    b.afterAll (h.filter (·.concerns id)) = b.afterAll h ∧
      snapshot? b (h.filter (·.concerns id)) id = snapshot? b h id := by
  induction h using List.reverseRecOn with
  | nil => exact ⟨rfl, rfl⟩
  | append_singleton h e ih =>
    obtain ⟨hbase, hsnapshot⟩ := ih
    rw [List.filter_append, Base.afterAll_concat, snapshot?_concat]
    cases he : e.concerns id with
    | true =>
      rw [List.filter_cons_of_pos he, List.filter_nil, Base.afterAll_concat, snapshot?_concat, hbase,
        hsnapshot]
      exact ⟨rfl, rfl⟩
    | false =>
      rw [List.filter_cons_of_neg (by simp [he]), List.filter_nil, List.append_nil, hbase, hsnapshot,
        Event.drops_of_not_concerns he, Event.resolves_of_not_concerns he,
        Base.after_of_not_concerns he]
      exact ⟨rfl, rfl⟩

namespace Session

/-! What one event does -/

theorem base_step (s : Session) (e : Event) : (s.step e).base = s.base.after e := by
  cases e with
  | resolve other =>
    cases h : s.memory.get? other with
    | some c => rw [step, resolve_of_some h, Base.after]
    | none => rw [step, resolve_of_none h, Base.after]
  | _ => rfl

theorem distinct_step {s : Session} (hs : s.memory.Distinct) (e : Event) :
    (s.step e).memory.Distinct := by
  cases e with
  | resolve other =>
    cases h : s.memory.get? other with
    | some c => rwa [step, resolve_of_some h]
    | none =>
      rw [step, resolve_of_none h]
      exact hs.put other _
  | take other => exact hs.erase other
  | invalidate other => exact hs.erase other
  | clear => exact List.nodup_nil
  | change b => exact hs

theorem get?_step (s : Session) (e : Event) (id : String) : (s.step e).memory.get? id =
    if e.drops id then none
    else if e.resolves id then some ((s.memory.get? id).getD (s.base.config? id))
    else s.memory.get? id := by
  cases e with
  | resolve other =>
    cases h : s.memory.get? other with
    | some c =>
      rw [step, resolve_of_some h]
      obtain rfl | ho := eq_or_ne other id
      · simp [Event.drops, Event.resolves, h]
      · simp [Event.drops, Event.resolves, ho]
    | none =>
      rw [step, resolve_of_none h, Entries.get?_put]
      obtain rfl | ho := eq_or_ne other id
      · simp [Event.drops, Event.resolves, h]
      · simp [Event.drops, Event.resolves, ho, ho.symm]
  | take other | invalidate other =>
    change (s.memory.erase other).get? id = _
    rw [Entries.get?_erase]
    obtain rfl | ho := eq_or_ne other id
    · simp [Event.drops]
    · simp [Event.drops, Event.resolves, ho, ho.symm]
  | clear => rfl
  | change b => rfl

theorem answers_step (s : Session) (e : Event) (id : String) : (s.step e).answers id =
    s.answers id ++
      if e.resolves id && (s.memory.get? id).isNone then [s.base.config? id] else [] := by
  cases e with
  | resolve other =>
    cases h : s.memory.get? other with
    | some c =>
      rw [step, resolve_of_some h]
      obtain rfl | ho := eq_or_ne other id
      · simp [Event.resolves, h]
      · simp [Event.resolves, ho]
    | none =>
      rw [step, resolve_of_none h, answers, answers, List.filter_append, List.map_append]
      obtain rfl | ho := eq_or_ne other id
      · simp [Event.resolves, h]
      · simp [Event.resolves, ho]
  | _ => simp [step, take, invalidate, answers, Event.resolves]

/-! What a history leaves -/

theorem base_run (b : Base) (h : List Event) : (run b h).base = b.afterAll h := by
  induction h using List.reverseRecOn with
  | nil => rfl
  | append_singleton h e ih => rw [run_concat, base_step, ih, Base.afterAll_concat]

theorem distinct_run (b : Base) (h : List Event) : (run b h).memory.Distinct := by
  induction h using List.reverseRecOn with
  | nil => exact List.nodup_nil
  | append_singleton h e ih =>
    rw [run_concat]
    exact distinct_step ih e

/-- What is remembered of a field is the snapshot that its history says. -/
theorem get?_run (b : Base) (h : List Event) (id : String) :
    (run b h).memory.get? id = snapshot? b h id := by
  induction h using List.reverseRecOn with
  | nil => rfl
  | append_singleton h e ih => rw [run_concat, get?_step, ih, base_run, snapshot?_concat]

theorem answers_concat (b : Base) (h : List Event) (e : Event) (id : String) :
    (run b (h ++ [e])).answers id = (run b h).answers id ++
      if e.resolves id && (snapshot? b h id).isNone then [(b.afterAll h).config? id] else [] := by
  rw [run_concat, answers_step, get?_run, base_run]

/-- The base is asked for a field once from one drop to the next, and only if the field is resolved. -/
theorem answers_run (b : Base) (h : List Event) (id : String) : (run b h).answers id =
    (run b (untilDrop h id)).answers id ++ (snapshot? b h id).toList := by
  induction h using List.reverseRecOn with
  | nil => rfl
  | append_singleton h e ih =>
    rw [snapshot?_concat]
    cases hd : e.drops id with
    | true =>
      rw [untilDrop_concat_of_drops h hd, if_pos rfl, Option.toList_none, List.append_nil]
    | false =>
      rw [untilDrop_concat h hd, answers_concat, ih, List.append_assoc]
      cases snapshot? b h id <;> cases e.resolves id <;> rfl

theorem answers_filter (b : Base) (h : List Event) (id : String) :
    (run b (h.filter (·.concerns id))).answers id = (run b h).answers id := by
  induction h using List.reverseRecOn with
  | nil => rfl
  | append_singleton h e ih =>
    obtain ⟨hbase, hsnapshot⟩ := snapshot?_filter b h id
    rw [List.filter_append, answers_concat]
    cases he : e.concerns id with
    | true =>
      rw [List.filter_cons_of_pos he, List.filter_nil, answers_concat, ih, hbase, hsnapshot]
    | false =>
      rw [List.filter_cons_of_neg (by simp [he]), List.filter_nil, List.append_nil, ih,
        Event.resolves_of_not_concerns he]
      simp

theorem resolve_run (b : Base) (h : List Event) (id : String) :
    some ((run b h).resolve id).2 = snapshot? b (h ++ [.resolve id]) id := by
  rw [snapshot?_concat, ← base_run, ← get?_run]
  cases hs : (run b h).memory.get? id with
  | some c => simp [resolve_of_some hs, Event.drops, Event.resolves]
  | none => simp [resolve_of_none hs, Event.drops, Event.resolves]

theorem length_run (b : Base) (h : List Event) :
    ((run b h).memory.length : ℕ∞) = {id | .resolve id ∈ sinceDrop h id}.encard := by
  have hnames : {id | Event.resolve id ∈ sinceDrop h id} = (run b h).memory.names.toFinset := by
    ext id
    rw [Set.mem_ofPred_eq, List.coe_toFinset, Set.mem_ofPred_eq, Entries.mem_names_iff, get?_run,
      ← Option.ne_none_iff_exists', Ne, snapshot?_eq_none_iff, not_not]
  rw [hnames, Set.encard_coe_eq_coe_finsetCard,
    List.toFinset_card_of_nodup (distinct_run b h), Entries.names, List.length_map]

/-- From one drop of a field to the next, all resolves of it answer what the base had at the first of
them, for which the base is asked once. Operations on other fields make no difference, and as many
fields are remembered as were resolved and not dropped since. Types resolve fields in the same way. -/
theorem answers_from_snapshots (b : Base) (h : List Event) (id : String) :
    let s := run b h
    let own := run b (h.filter (·.concerns id))
    ((s.resolve id).1.memory, (s.resolve id).2) = s.memory.resolve s.base.config? id ∧
    some (s.resolve id).2 = snapshot? b (h ++ [.resolve id]) id ∧
    (s.take id).2 = snapshot? b h id ∧ (s.invalidate id).2 = (snapshot? b h id).isSome ∧
    s.answers id = (run b (untilDrop h id)).answers id ++ (snapshot? b h id).toList ∧
    (s.resolve id).2 = (own.resolve id).2 ∧ (s.take id).2 = (own.take id).2 ∧
    s.answers id = own.answers id ∧
    (s.memory.length : ℕ∞) = {id | .resolve id ∈ sinceDrop h id}.encard := by
  intro s own
  obtain ⟨hbase, hsnapshot⟩ := snapshot?_filter b h id
  have htake (h : List Event) : ((run b h).take id).2 = snapshot? b h id := get?_run b h id
  have hresolve : some (s.resolve id).2 = some (own.resolve id).2 := by
    rw [resolve_run, resolve_run, snapshot?_concat, snapshot?_concat, hbase, hsnapshot]
  have hknown : (s.invalidate id).2 = (snapshot? b h id).isSome :=
    congrArg Option.isSome (get?_run b h id)
  exact ⟨resolve_eq s id, resolve_run b h id, htake h, hknown, answers_run b h id,
    Option.some.inj hresolve, by rw [htake, htake, hsnapshot], (answers_filter b h id).symm,
    length_run b h⟩

example (tree : FormTree) (columns : Columns) :
    (run ⟨⟨[], [], "", 0⟩, []⟩ [.resolve "title", .change ⟨tree, columns⟩]).memory.get? "title" =
      some none := rfl

end Session

end FormLayout
