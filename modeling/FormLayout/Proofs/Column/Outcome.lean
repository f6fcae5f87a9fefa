import FormLayout.Proofs.Column.Reduction
/-!
What becomes of each column of a type that is reduced over a base. Comparing beforehand, the columns
as a whole or one by one, changes nothing of it, and reducing over the new base gives it again.
-/

namespace FormLayout
set_option autoImplicit true
open Value

namespace Entries

variable {m : Entries α}

/-- The values that a function has for the entries of a map. -/
def collect (f : String → α → Option β) (m : Entries α) : Entries β :=
  m.filterMap fun e => (f e.1 e.2).map (e.1, ·)

theorem collect_concat (f : String → α → Option β) (m : Entries α) (name : String) (v : α) :
    collect f (m ++ [(name, v)]) = collect f m ++ ((f name v).map (name, ·)).toList := by
  rw [collect, List.filterMap_append]
  congr 1

theorem mem_names_of_collect {f : String → α → Option β} (h : name ∈ (collect f m).names) :
    name ∈ m.names := by
  obtain ⟨v, hv⟩ := mem_names_iff.1 h
  obtain ⟨e, he, hf⟩ := List.mem_filterMap.1 (mem_of_get? hv)
  obtain ⟨w, _, hw⟩ := Option.map_eq_some_iff.1 hf
  cases hw
  exact List.mem_map_of_mem he

theorem get?_collect (hm : m.Distinct) (f : String → α → Option β) (name : String) :
    (collect f m).get? name = (m.get? name).bind (f name) := by
  induction m using List.reverseRecOn with
  | nil => rfl
  | append_singleton init last ih =>
    obtain ⟨k, v⟩ := last
    obtain ⟨hinit, hnew⟩ := distinct_concat hm
    rw [collect_concat, get?_append, get?_append, ih hinit]
    by_cases hk : k = name
    · have hnone : get? init name = none := get?_eq_none_iff.2 (hk ▸ hnew)
      rw [hnone, Option.bind_none, Option.none_or, Option.none_or, get?, if_pos hk, hk,
        Option.bind_some]
      cases f name v <;> simp [get?]
    · have hnone : get? [(k, v)] name = none := by rw [get?, if_neg hk, get?]
      have hnone' : get? ((f k v).map (k, ·)).toList name = none := by
        cases f k v with
        | none => rfl
        | some w => rw [Option.map_some, Option.toList_some, get?, if_neg hk, get?]
      rw [hnone, hnone', Option.or_none, Option.or_none]

end Entries

namespace Column

/-- What the base gets of a column: all of one that it lacks and that is no real one. -/
def addition? (isReal : String → Bool) (base : Columns) (id : String) (config : Fields) :
    Option Fields :=
  match base.get? id with
  | none => if isReal id then none else some config
  | some _ => none

/-- The override of a column: all of it when the base lacks it and it is a real one, and otherwise
what differs from the base, if anything does. -/
def overrideOver? (isReal : String → Bool) (base : Columns) (id : String) (config : Fields) :
    Option Fields :=
  match base.get? id with
  | none => if isReal id then some config else none
  | some known => if diff known config = [] then none else some (diff known config)

/-- What reducing comes to, column by column. -/
def reduction (isReal : String → Bool) (base columns : Columns) : Reduction where
  base := base ++ columns.collect (addition? isReal base)
  overrides := columns.collect (overrideOver? isReal base)

/-- Takes in one column of the type by its difference to the base alone. -/
def Reduction.addByDiff (isReal : String → Bool) (r : Reduction) (id : String) (config : Fields) :
    Reduction :=
  match r.base.get? id with
  | none =>
    if isReal id then { r with overrides := r.overrides.put id config }
    else { r with base := r.base.put id config }
  | some known =>
    match diff known config with
    | [] => r
    | f :: fs => { r with overrides := r.overrides.put id (f :: fs) }

/-- Reduces the columns of a type without comparing anything beforehand. -/
def reduceByDiff (isReal : String → Bool) (base columns : Columns) : Reduction :=
  columns.foldl (fun r e => r.addByDiff isReal e.1 e.2) ⟨base, []⟩

variable {isReal : String → Bool} {base columns : Columns}

theorem Reduction.addByDiff_eq {init : Columns} {name : String} (h : init.get? name = none)
    (config : Fields) : (reduction isReal base init).addByDiff isReal name config =
      reduction isReal base (init ++ [(name, config)]) := by
  have hnew {f : String → Fields → Option Fields} : (init.collect f).get? name = none :=
    Entries.get?_eq_none_iff.2 fun hm =>
      Entries.get?_eq_none_iff.1 h (Entries.mem_names_of_collect hm)
  have hbase : (reduction isReal base init).base.get? name = base.get? name := by
    rw [reduction, Entries.get?_append, hnew, Option.or_none]
  rw [addByDiff, hbase, reduction, reduction, Entries.collect_concat, Entries.collect_concat,
    addition?, overrideOver?]
  cases hk : base.get? name with
  | none =>
    dsimp only
    cases isReal name with
    | true => simp [Entries.put_eq_concat hnew]
    | false =>
      have hnone : Entries.get? (base ++ init.collect (addition? isReal base)) name = none := by
        rw [Entries.get?_append, hk, hnew, Option.or_none]
      simp [Entries.put_eq_concat hnone]
  | some known =>
    dsimp only
    cases hd : diff known config with
    | nil => simp
    | cons f fs => simp [Entries.put_eq_concat hnew]

theorem reduceByDiff_eq (hc : columns.Distinct) :
    reduceByDiff isReal base columns = reduction isReal base columns := by
  induction columns using List.reverseRecOn with
  | nil => simp [reduceByDiff, reduction, Entries.collect]
  | append_singleton init last ih =>
    obtain ⟨hinit, hnew⟩ := Entries.distinct_concat hc
    rw [reduceByDiff, List.foldl_append, List.foldl_cons, List.foldl_nil]
    exact (congrArg (fun r => Reduction.addByDiff isReal r last.1 last.2) (ih hinit)).trans
      (Reduction.addByDiff_eq (Entries.get?_eq_none_iff.2 hnew) last.2)

theorem proper_put_ofFields {columns : Columns} (h : Proper (.ofFields columns)) (name : String)
    {config : Fields} (hc : Proper (.object config)) :
    Proper (.ofFields (columns.put name config)) := by
  obtain ⟨hd, hproper⟩ := proper_ofFields_iff.1 h
  refine proper_ofFields_iff.2 ⟨hd.put name config, fun id known hk => ?_⟩
  rw [Entries.get?_put] at hk
  split at hk
  · exact Option.some.inj hk ▸ hc
  · exact hproper id known hk

section Shortcuts

variable {r : Reduction} {config : Fields}

theorem Reduction.add_eq_addByDiff (hr : Proper (.ofFields r.base)) (hc : Proper (.object config))
    (id : String) : r.add isReal id config = r.addByDiff isReal id config := by
  rw [add, addByDiff]
  cases hk : r.base.get? id with
  | none => rfl
  | some known =>
    dsimp only
    split
    · next he => rw [diff_of_equal ((proper_ofFields_iff.1 hr).2 id known hk) hc he]
    · rfl

theorem Reduction.proper_addByDiff (hr : Proper (.ofFields r.base)) (hc : Proper (.object config))
    (id : String) : Proper (.ofFields (r.addByDiff isReal id config).base) := by
  rw [addByDiff]
  split
  · split
    · exact hr
    · exact proper_put_ofFields hr id hc
  · split <;> exact hr

/-- Comparing single configurations beforehand changes nothing. -/
theorem foldl_add_eq (hr : Proper (.ofFields r.base)) (hc : ∀ e ∈ columns, Proper (.object e.2)) :
    columns.foldl (fun r e => r.add isReal e.1 e.2) r =
        columns.foldl (fun r e => r.addByDiff isReal e.1 e.2) r ∧
      Proper (.ofFields (columns.foldl (fun r e => r.addByDiff isReal e.1 e.2) r).base) := by
  induction columns generalizing r with
  | nil => exact ⟨rfl, hr⟩
  | cons e rest ih =>
    rw [List.forall_mem_cons] at hc
    rw [List.foldl_cons, List.foldl_cons, Reduction.add_eq_addByDiff hr hc.1]
    exact ih (Reduction.proper_addByDiff hr hc.1 e.1) hc.2

end Shortcuts

theorem proper_of_mem_columns (hc : Proper (.ofFields columns)) :
    ∀ e ∈ columns, Proper (.object e.2) := by
  obtain ⟨hd, hproper⟩ := proper_ofFields_iff.1 hc
  exact fun e he => hproper e.1 e.2 (Entries.get?_of_mem hd he)

/-- Columns equal to those of the base are no additions and have no overrides. -/
theorem reduction_of_equal (hb : Proper (.ofFields base)) (hc : Proper (.ofFields columns))
    (h : base.equal columns = true) : reduction isReal base columns = ⟨base, []⟩ := by
  obtain ⟨hbd, hb⟩ := proper_ofFields_iff.1 hb
  obtain ⟨hcd, hc⟩ := proper_ofFields_iff.1 hc
  have hnone {f : String → Fields → Option Fields}
      (hf : ∀ id known config, base.get? id = some known → diff known config = [] →
        f id config = none) : columns.collect f = [] := by
    apply List.filterMap_eq_nil_iff.2
    intro e he
    have hget := Entries.get?_of_mem hcd he
    obtain ⟨known, hk, hequal⟩ := exists_of_rel_some (hget ▸ (equal_ofFields_iff hbd hcd).1 h e.1)
    rw [hf _ _ _ hk (diff_of_equal (hb _ _ hk) (hc _ _ hget) hequal), Option.map_none]
  rw [reduction, hnone fun id known config hk _ => by rw [addition?, hk],
    hnone fun id known config hk hd => by rw [overrideOver?, hk]; exact if_pos hd, List.append_nil]

theorem reduce_eq (hb : Proper (.ofFields base)) (hc : Proper (.ofFields columns)) :
    reduce isReal base columns = reduction isReal base columns := by
  rw [reduce]
  split
  · next h => exact (reduction_of_equal hb hc h).symm
  · rw [← reduceByDiff_eq (proper_ofFields_iff.1 hc).1]
    exact (foldl_add_eq hb (proper_of_mem_columns hc)).1

theorem proper_base_reduction (hb : Proper (.ofFields base)) (hc : Proper (.ofFields columns)) :
    Proper (.ofFields (reduction isReal base columns).base) := by
  rw [← reduceByDiff_eq (proper_ofFields_iff.1 hc).1]
  exact (foldl_add_eq hb (proper_of_mem_columns hc)).2

/-- What becomes of a column of a type: what the base has of it then, and its override. -/
inductive Outcome (isReal : String → Bool) (base : Columns) (id : String) (config : Fields) :
    Option Fields → Option Fields → Prop where
  | whole : base.get? id = none → isReal id = true →
    Outcome isReal base id config none (some config)
  | added : base.get? id = none → isReal id = false →
    Outcome isReal base id config (some config) none
  | inherited {known : Fields} : base.get? id = some known → diff known config = [] →
    Outcome isReal base id config (some known) none
  | reduced {known : Fields} : base.get? id = some known → diff known config ≠ [] →
    Outcome isReal base id config (some known) (some (diff known config))

theorem get?_base_reduction (hc : columns.Distinct) (id : String) :
    (reduction isReal base columns).base.get? id =
      (base.get? id).or ((columns.get? id).bind (addition? isReal base id)) := by
  rw [reduction, Entries.get?_append, Entries.get?_collect hc]

theorem get?_overrides_reduction (hc : columns.Distinct) (id : String) :
    (reduction isReal base columns).overrides.get? id =
      (columns.get? id).bind (overrideOver? isReal base id) := Entries.get?_collect hc _ id

theorem outcome_reduction (hc : columns.Distinct) {id : String} {config : Fields}
    (h : columns.get? id = some config) : Outcome isReal base id config
      ((reduction isReal base columns).base.get? id)
      ((reduction isReal base columns).overrides.get? id) := by
  rw [get?_base_reduction hc, get?_overrides_reduction hc, h, Option.bind_some, Option.bind_some,
    addition?, overrideOver?]
  cases hk : base.get? id with
  | none =>
    cases hr : isReal id with
    | true => exact .whole hk hr
    | false => exact .added hk hr
  | some known =>
    dsimp only
    split
    · next hd => exact .inherited hk hd
    · next hd => exact .reduced hk hd

theorem diff_self {config : Fields} (h : Proper (.object config)) : diff config config = [] :=
  diff_of_equal h h (equal_refl h)

/-- Over the new base no column is added, and the overrides are the same. -/
theorem reduction_reduction (hc : Proper (.ofFields columns)) :
    reduction isReal (reduction isReal base columns).base columns =
      reduction isReal base columns := by
  obtain ⟨hd, hproper⟩ := proper_ofFields_iff.1 hc
  have hagain (e : String × Fields) (he : e ∈ columns) :
      addition? isReal (reduction isReal base columns).base e.1 e.2 = none ∧
        overrideOver? isReal (reduction isReal base columns).base e.1 e.2 =
          overrideOver? isReal base e.1 e.2 := by
    have hget := Entries.get?_of_mem hd he
    have ho : Outcome isReal base e.1 e.2 _ _ := outcome_reduction hd hget
    have hover : (reduction isReal base columns).overrides.get? e.1 = _ :=
      get?_overrides_reduction hd e.1
    rw [hget, Option.bind_some] at hover
    rw [hover] at ho
    rw [addition?, overrideOver?]
    generalize (reduction isReal base columns).base.get? e.1 = x at ho
    generalize overrideOver? isReal base e.1 e.2 = y at ho
    cases ho with
    | whole _ hr => simp [hr]
    | added _ _ => simp [diff_self (hproper _ _ hget)]
    | inherited _ hdiff => simp [hdiff]
    | reduced _ hdiff => simp [hdiff]
  have hnone : columns.collect (addition? isReal (reduction isReal base columns).base) = [] := by
    apply List.filterMap_eq_nil_iff.2
    intro e he
    rw [(hagain e he).1, Option.map_none]
  have hsame : columns.collect (overrideOver? isReal (reduction isReal base columns).base) =
      columns.collect (overrideOver? isReal base) := by
    apply List.filterMap_congr
    intro e he
    rw [(hagain e he).2]
  conv_lhs => rw [reduction, hnone, hsame, List.append_nil]
  rfl

/-- Every column of a type has one outcome, and nothing else becomes an override or changes in the
base. The comparisons beforehand are only shortcuts, and reducing again over the new base changes
nothing. -/
theorem reduce_outcomes (hb : Proper (.ofFields base)) (hc : Proper (.ofFields columns))
    (isReal : String → Bool) :
    let r := reduce isReal base columns
    (∀ id config, columns.get? id = some config →
      Outcome isReal base id config (r.base.get? id) (r.overrides.get? id)) ∧
    (∀ id, columns.get? id = none →
      r.overrides.get? id = none ∧ r.base.get? id = base.get? id) ∧
    base <+: r.base ∧ r = reduceByDiff isReal base columns ∧ reduce isReal r.base columns = r := by
  have hd := (proper_ofFields_iff.1 hc).1
  dsimp only
  rw [reduce_eq hb hc]
  refine ⟨fun id config h => outcome_reduction hd h, fun id h => ?_, List.prefix_append _ _,
    (reduceByDiff_eq hd).symm, ?_⟩
  · rw [get?_base_reduction hd, get?_overrides_reduction hd, h]
    exact ⟨rfl, Option.or_none⟩
  · rw [reduce_eq (proper_base_reduction hb hc) hc, reduction_reduction hc]

/-- One column of each kind: not known and real, not known, a size written as a text, and a new
label. -/
theorem reduce_outcomes_mixed :
    let base : Columns := [("b", [("size", .number (.integer 3))]), ("c", [("label", .string "C")])]
    let columns : Columns := [("new", [("label", .string "N")]), ("a", []),
      ("b", [("size", .string "3")]), ("c", [("label", .string "D"), ("exclude", .bool true)])]
    let isReal := fun id => id == "new"
    let r := reduce isReal base columns
    Proper (.ofFields base) ∧ Proper (.ofFields columns) ∧
    r.base.names = ["b", "c", "a"] ∧
    r.overrides.names = ["new", "c"] ∧
    Outcome isReal base "b" [("size", .string "3")] (r.base.get? "b") (r.overrides.get? "b") ∧
    r = reduceByDiff isReal base columns ∧ reduce isReal r.base columns = r := by
  intro base columns isReal r
  have hb : Proper (.ofFields base) := by
    simp [base, ofFields, proper_object_iff, Entries.Distinct, Entries.names, Proper.string,
      Proper.number]
  have hc : Proper (.ofFields columns) := by
    simp [columns, ofFields, proper_object_iff, Entries.Distinct, Entries.names, Proper.string,
      Proper.bool]
  obtain ⟨houtcome, _, _, hplain, hagain⟩ := reduce_outcomes hb hc isReal
  exact ⟨hb, hc, by decide +kernel, by decide +kernel, houtcome "b" _ rfl, hplain, hagain⟩

end Column

end FormLayout
