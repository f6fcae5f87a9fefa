import FormLayout.Form.Edit
import FormLayout.Proofs.Form.Moves
/-!
The ids that are issued to new line breaks. The number of a line break is beyond that of each line
break before it, and no other change of a tree turns the numbering back.
-/

namespace FormLayout
set_option autoImplicit true

/-- The ids of line breaks, with numbers that increase, beyond the first number and up to the
second. -/
inductive Numbered : Nat → List String → Nat → Prop where
  | nil : a ≤ b → Numbered a [] b
  | cons : a < k → Numbered k ids b → Numbered a (lineBreakId k :: ids) b

namespace Numbered

theorem of_le (hab : a ≤ b) (h : Numbered b ids c) : Numbered a ids c := by
  cases h with
  | nil hbc => exact .nil (Nat.le_trans hab hbc)
  | cons hk hrest => exact .cons (Nat.lt_of_le_of_lt hab hk) hrest

theorem append (h : Numbered a ids b) (h' : Numbered b ids' c) : Numbered a (ids ++ ids') c := by
  induction h with
  | nil hab => exact h'.of_le hab
  | cons hk _ ih => exact .cons hk (ih h')

theorem exists_of_mem {id : String} (h : Numbered a ids b) (hid : id ∈ ids) :
    ∃ k, a < k ∧ id = lineBreakId k := by
  induction h with
  | nil => cases hid
  | cons hk _ ih =>
    rcases List.mem_cons.1 hid with rfl | hmem
    · exact ⟨_, hk, rfl⟩
    · obtain ⟨j, hj, rfl⟩ := ih hmem
      exact ⟨j, Nat.lt_trans hk hj, rfl⟩

theorem nodup (h : Numbered a ids b) : ids.Nodup := by
  induction h with
  | nil => exact List.nodup_nil
  | cons _ hrest ih =>
    refine List.nodup_cons.2 ⟨fun hmem => ?_, ih⟩
    obtain ⟨j, hj, he⟩ := hrest.exists_of_mem hmem
    exact Nat.ne_of_lt hj (lineBreakId_injective he)

end Numbered

namespace FormTree

/-- The ids of the line breaks in the map, in the order in which they came there. -/
def lineBreakIds (t : FormTree) : List String :=
  (t.nodes.filter fun e => e.2.kind = .lineBreak).map Prod.fst

theorem lineBreakIds_update (t : FormTree) (id : String) (hf : ∀ n, (f n).kind = n.kind) :
    (t.update id f).lineBreakIds = t.lineBreakIds := by
  have hkind (e : String × Node) :
      (if e.1 = id then (e.1, f e.2) else e).2.kind = e.2.kind := by
    split
    · exact hf e.2
    · rfl
  have hname (e : String × Node) : (if e.1 = id then (e.1, f e.2) else e).1 = e.1 := by
    split <;> rfl
  simp only [lineBreakIds, update, Entries.update, List.filter_map, List.map_map,
    Function.comp_def, hkind, hname]

theorem lineBreakIds_insertNode {t : FormTree} {id : String} (hid : t.node? id = none)
    (content : Content) : (t.insertNode id content).lineBreakIds =
      t.lineBreakIds ++ if content.kind = .lineBreak then [id] else [] := by
  rw [lineBreakIds, insertNode, Entries.put_eq_concat hid, List.filter_append, List.map_append,
    List.filter_singleton, ← lineBreakIds]
  by_cases hk : content.kind = .lineBreak <;> simp [Node.fresh, Node.kind, hk]

theorem lineBreakIds_relocate (t : FormTree) (id : String) (c : Option String) (a : Anchor) :
    (t.relocate id c a).lineBreakIds = t.lineBreakIds := by
  have hdetach : (t.detach id).lineBreakIds = t.lineBreakIds := by
    rw [detach]
    split
    · rw [lineBreakIds_update, lineBreakIds_update] <;> exact fun _ => rfl
    · rfl
  rw [relocate, ← hdetach]
  cases c with
  | none => rfl
  | some p => rw [attach, lineBreakIds_update, lineBreakIds_update] <;> exact fun _ => rfl

@[simp] theorem lineBreaks_detach (t : FormTree) (id : String) :
    (t.detach id).lineBreaks = t.lineBreaks := by
  rw [detach]
  split <;> rfl

/-- Two trees have the same line breaks, and will number the next one alike. -/
structure SameLineBreaks (t u : FormTree) : Prop where
  number : u.lineBreaks = t.lineBreaks
  ids : u.lineBreakIds = t.lineBreakIds

namespace SameLineBreaks

variable {t u v : FormTree}

theorem refl (t : FormTree) : t.SameLineBreaks t := ⟨rfl, rfl⟩

theorem trans (h : t.SameLineBreaks u) (h' : u.SameLineBreaks v) : t.SameLineBreaks v :=
  ⟨h'.number.trans h.number, h'.ids.trans h.ids⟩

theorem update (t : FormTree) (id : String) (hf : ∀ n, (f n).kind = n.kind) :
    t.SameLineBreaks (t.update id f) :=
  ⟨rfl, lineBreakIds_update t id hf⟩

theorem insertNode {id : String} (hid : t.node? id = none) (hk : content.kind ≠ .lineBreak) :
    t.SameLineBreaks (t.insertNode id content) :=
  ⟨rfl, by rw [lineBreakIds_insertNode hid, if_neg hk, List.append_nil]⟩

theorem relocate (t : FormTree) (id : String) (c : Option String) (a : Anchor) :
    t.SameLineBreaks (t.relocate id c a) :=
  ⟨lineBreaks_relocate t id c a, lineBreakIds_relocate t id c a⟩

theorem attachTab {id : String} (hid : t.node? id = none) : t.SameLineBreaks (t.attachTab id) :=
  (insertNode hid (by simp [Content.kind])).trans (relocate _ id none .last)

theorem ensureTab (t : FormTree) : t.SameLineBreaks t.ensureTab.1 := by
  by_cases ht : t.tabs = []
  · rw [ensureTab_of_nil ht]
    exact (attachTab t.node?_nextTabId).trans (update _ _ (Node.keepsLinks_setLabel _).kind)
  · rw [ensureTab_of_ne_nil ht]
    exact refl t

theorem moveToDefault (t : FormTree) (id : String) (kind : NodeKind) :
    t.SameLineBreaks (t.moveToDefault id kind) := by
  by_cases hk : kind = .tab
  · rw [FormTree.moveToDefault, if_pos hk]
    exact relocate t id none .last
  · rw [moveToDefault_of_ne_tab hk]
    exact (ensureTab t).trans (relocate _ id _ .last)

theorem place {id : String} (hu : t.place id position = .ok u) : t.SameLineBreaks u := by
  obtain ⟨n, _, ⟨_, rfl⟩ | ⟨_, rfl | ⟨c, a, _, rfl⟩⟩⟩ := place_ok_cases hu
  · exact refl u
  · exact moveToDefault t id n.kind
  · exact relocate t id c a

theorem create {id : String} (hk : content.kind ≠ .lineBreak)
    (hu : t.create id content = .ok u) : t.SameLineBreaks u := by
  rcases create_cases hu with ⟨rfl, _⟩ | ⟨hid, rfl⟩
  · exact refl u
  · exact (insertNode hid hk).trans (moveToDefault _ id _)

end SameLineBreaks

/-- The id that a line break at a position gets, unless the position is refused. -/
def issuedAt (t : FormTree) (position : Position) : List String :=
  (t.lineBreak position).2.toOption.toList

/-- A tree has become another one, and the line breaks that it got meanwhile have some ids. -/
structure Issues (t u : FormTree) (ids : List String) : Prop where
  numbered : Numbered t.lineBreaks ids u.lineBreaks
  lineBreakIds : u.lineBreakIds = t.lineBreakIds ++ ids

theorem SameLineBreaks.issues {t u : FormTree} (h : t.SameLineBreaks u) : t.Issues u [] :=
  ⟨.nil (Nat.le_of_eq h.number.symm), by rw [h.ids, List.append_nil]⟩

theorem Issues.trans {t u v : FormTree} (h : t.Issues u ids) (h' : u.Issues v ids') :
    t.Issues v (ids ++ ids') :=
  ⟨h.numbered.append h'.numbered, by rw [h'.lineBreakIds, h.lineBreakIds, List.append_assoc]⟩

/-- The number is used up also if the position is refused. -/
theorem lineBreaks_lineBreak (t : FormTree) (position : Position) :
    (t.lineBreak position).1.lineBreaks = t.nextLineBreak := by
  cases hu : t.lineBreak position with
  | mk u answer =>
    cases answer with
    | error e => rw [lineBreak_error_cases hu]
    | ok id => exact (SameLineBreaks.place (lineBreak_ok_cases hu).2).number

theorem issues_lineBreak (t : FormTree) (position : Position) :
    t.Issues (t.lineBreak position).1 (t.issuedAt position) := by
  rw [issuedAt]
  cases hu : t.lineBreak position with
  | mk u answer =>
    cases answer with
    | error e =>
      obtain rfl := lineBreak_error_cases hu
      exact ⟨.nil t.le_nextLineBreak, (List.append_nil _).symm⟩
    | ok id =>
      obtain ⟨rfl, hplace⟩ := lineBreak_ok_cases hu
      have hsame := SameLineBreaks.place hplace
      have hnew := lineBreakIds_insertNode (t := { t with lineBreaks := t.nextLineBreak })
        t.node?_nextLineBreak .lineBreak
      exact ⟨.cons t.lt_nextLineBreak (.nil (Nat.le_of_eq hsame.number.symm)), hsame.ids.trans hnew⟩

theorem lineBreaks_removeAnswering (t : FormTree) (id : String) :
    (t.removeAnswering id).1.lineBreaks = t.lineBreaks := by
  rw [removeAnswering, remove]
  cases t.has id with
  | true => exact lineBreaks_detach t id
  | false => rfl

theorem lineBreaks_editNode (t : FormTree) (id : String) (edits : List NodeEdit) :
    (t.editNode id edits).1.lineBreaks = t.lineBreaks := by
  induction edits generalizing t with
  | nil => rfl
  | cons e rest ih =>
    cases e with
    | remove => exact lineBreaks_removeAnswering t id
    | move position =>
      rw [editNode]
      split
      · next hu =>
        obtain ⟨_, _, hplace⟩ := moveTo_cases hu
        rw [ih, (SameLineBreaks.place hplace).number]
      · rfl
    | label | clearLabel | slots | set | unset | merge => exact ih _

theorem lineBreaks_thenEdit (t : FormTree) (id : String) (edits : List NodeEdit)
    {content : Content} (hk : content.kind ≠ .lineBreak) :
    (t.thenEdit id edits (t.create id content)).1.lineBreaks = t.lineBreaks := by
  cases hu : t.create id content with
  | error e => rfl
  | ok u => exact (lineBreaks_editNode u id edits).trans (SameLineBreaks.create hk hu).number

end FormTree

/-- The ids that an edit of a tree issues. -/
def TreeEdit.issued (t : FormTree) : TreeEdit → List String
  | .lineBreak position _ =>
    match Position.parse position with
    | .ok p => t.issuedAt p
    | .error _ => []
  | _ => []

/-- A step of the numbering: it goes on, if at all, by the ids that the edit issues. -/
theorem FormTree.numbered_run (t : FormTree) (e : TreeEdit) :
    Numbered t.lineBreaks (e.issued t) (t.run e).1.lineBreaks := by
  have hsame {u : FormTree} (hu : u.lineBreaks = t.lineBreaks) :
      Numbered t.lineBreaks [] u.lineBreaks := .nil (Nat.le_of_eq hu.symm)
  cases e with
  | tab id edits => exact hsame (t.lineBreaks_thenEdit id edits (by simp [Content.kind]))
  | palette name edits =>
    exact hsame (t.lineBreaks_thenEdit (paletteId name) edits (by simp [Content.kind]))
  | field id config edits =>
    exact hsame (t.lineBreaks_thenEdit id edits (by simp [Content.kind]))
  | addTab edits =>
    exact hsame ((lineBreaks_editNode _ _ edits).trans
      (SameLineBreaks.attachTab t.node?_nextTabId).number)
  | lineBreak position edits =>
    rw [TreeEdit.issued, run]
    cases Position.parse position with
    | error e => exact hsame rfl
    | ok p =>
      have hissues := (t.issues_lineBreak p).numbered
      dsimp only
      split
      · next hu =>
        rw [hu] at hissues
        rw [lineBreaks_editNode]
        exact hissues
      · next hu =>
        rw [hu] at hissues
        exact hissues
  | node id edits =>
    rw [run]
    split
    · exact hsame (lineBreaks_editNode t id edits)
    · exact hsame rfl
  | move id position =>
    rw [run]
    split
    · next hu =>
      obtain ⟨_, _, hplace⟩ := moveTo_cases hu
      exact hsame (SameLineBreaks.place hplace).number
    · exact hsame rfl
  | tryMove id position =>
    rw [run]
    split
    · next hu =>
      obtain ⟨_, _, hplace⟩ := moveTo_cases (eq_ok_of_recovered hu)
      exact hsame (SameLineBreaks.place hplace).number
    · exact hsame rfl
    · exact hsame rfl
  | remove id => exact hsame (lineBreaks_removeAnswering t id)
  | ensureTab => exact hsame (SameLineBreaks.ensureTab t).number
  | reset => exact hsame rfl
  | setLabel id label =>
    rw [run]
    split <;> exact hsame rfl

end FormLayout
