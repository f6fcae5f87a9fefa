import FormLayout.Form.Edit
import FormLayout.Proofs.Form.Fresh
import FormLayout.Proofs.Form.Moves
/-!
Calls that change a tree in place. A new node enters the map before it is placed, a first tab may be
added on the way, and a step that fails is taken back. Such calls come to the same as those that give
a new tree or none, and one that fails leaves the tree as it was.
-/

namespace FormLayout
set_option autoImplicit true

theorem Entries.erase_put {m : Entries α} (h : m.get? name = none) (v : α) :
    (m.put name v).erase name = m := by
  induction m with
  | nil => simp [Entries.put, Entries.erase]
  | cons e rest ih =>
    obtain ⟨k, w⟩ := e
    by_cases hk : k = name
    · simp [get?, hk] at h
    · rw [get?, if_neg hk] at h
      rw [put, if_neg hk, erase, List.filter_cons, if_pos (bne_iff_ne.2 hk)]
      exact congrArg _ (ih h)

/-- A call on a tree, which leaves a tree also when it fails. -/
abbrev Change (α : Type) := FormTree → FormTree × Except Error α

namespace Change

def andThen (f : Change α) (g : α → Change β) : Change β := fun t =>
  match f t with
  | (t, .ok a) => g a t
  | (t, .error e) => (t, .error e)

/-- Answers something else. -/
def map (g : α → β) (f : Change α) : Change β := fun t => ((f t).1, (f t).2.map g)

/-- Takes a node out of the map again when the call fails. -/
def orErase (id : String) (f : Change α) : Change α := fun t =>
  match f t with
  | (t, .ok a) => (t, .ok a)
  | (t, .error e) => ({ t with nodes := t.nodes.erase id }, .error e)

/-- The tree that is given takes the place of the old one, which stays if there is none. -/
def ofExcept (f : FormTree → Except Error FormTree) : Change Unit := fun t =>
  match f t with
  | .ok u => (u, .ok ())
  | .error e => (t, .error e)

/-- Whenever the call fails it leaves the tree that it was given. -/
def Restores (f : Change α) : Prop := ∀ t u e, f t = (u, .error e) → u = t

/-! The steps of a call. How the last tab is found is left open, as it may have to be created. -/

section
variable (lastTab : Change String)

/-- The list that a position names, and the place in it. -/
def destination (kind : NodeKind) : Position → Change (Option String × Anchor)
  | .default =>
    if kind = .tab then fun t => (t, .ok (none, .last))
    else lastTab.andThen fun tab t => (t, .ok (some tab, .last))
  | .top target => fun t => (t, (t.containerInside kind target).map fun c => (c, .first))
  | .bottom target => fun t => (t, (t.containerInside kind target).map fun c => (c, .last))
  | .before target => fun t =>
    (t, (t.containerBeside kind target).map fun c => (c, .before target))
  | .after target => fun t =>
    (t, (t.containerBeside kind target).map fun c => (c, .after target))

def move (id : String) (position : Position) : Change Unit := fun t =>
  match t.node? id with
  | none => (t, .error (.nodeNotFound id))
  | some n =>
    if position.target? = some id then (t, .ok ())
    else
      (destination lastTab n.kind position).andThen
        (fun place t => (t.relocate id place.1 place.2, .ok ())) t

def attach (id : String) (content : Content) : Change Unit := fun t =>
  match t.node? id with
  | some n => (t, .error (.idCollision id n.kind content.kind))
  | none => (move lastTab id .default).orErase id (t.insertNode id content)

def ensureTab : Change String := fun t =>
  match t.tabs.getLast? with
  | some id => (t, .ok id)
  | none =>
    (attach lastTab t.nextTabId .tab).andThen
      (fun _ u => (u.update t.nextTabId fun n => n.setLabel (some t.defaultTabLabel),
        .ok t.nextTabId)) t

def create (id : String) (content : Content) : Change Unit := fun t =>
  match t.node? id with
  | some n =>
    if n.kind = content.kind then (t, .ok ())
    else (t, .error (.idCollision id n.kind content.kind))
  | none => attach lastTab id content t

def lineBreak (position : Position) : Change String := fun t =>
  ((move lastTab (lineBreakId t.nextLineBreak) position).map
    fun _ => lineBreakId t.nextLineBreak).orErase (lineBreakId t.nextLineBreak)
    ({ t with lineBreaks := t.nextLineBreak }.insertNode (lineBreakId t.nextLineBreak) .lineBreak)

end

theorem Restores.andThen {f : Change α} {g : α → Change β} (hf : f.Restores)
    (hg : ∀ a t, ∃ u b, g a t = (u, .ok b)) : (f.andThen g).Restores := by
  intro t u e h
  rw [Change.andThen] at h
  split at h
  · next t' a _ =>
    obtain ⟨v, b, hb⟩ := hg a t'
    cases hb.symm.trans h
  · next hft =>
    cases h
    exact hf t _ _ hft

theorem map_error_iff {f : Change α} {g : α → β} :
    f.map g t = (u, .error e) ↔ f t = (u, .error e) := by
  rw [Change.map]
  obtain ⟨v, r⟩ := f t
  cases r <;> simp [Except.map]

theorem Restores.map {f : Change α} (hf : f.Restores) (g : α → β) : (f.map g).Restores :=
  fun t u e h => hf t u e (map_error_iff.1 h)

theorem erase_insertNode {t : FormTree} {id : String} (hid : t.node? id = none) (content : Content) :
    { t with nodes := (t.insertNode id content).nodes.erase id } = t :=
  congrArg (fun nodes => { t with nodes }) (Entries.erase_put hid _)

/-- The node that is taken out again was the only change. -/
theorem eq_of_orErase {f : Change α} (hf : f.Restores) {t : FormTree} {id : String}
    (hid : t.node? id = none)
    (h : f.orErase id (t.insertNode id content) = (u, .error e)) : u = t := by
  rw [orErase] at h
  split at h
  · cases h
  · next hft =>
    cases h
    rw [hf _ _ _ hft]
    exact erase_insertNode hid content

section
variable {lastTab : Change String}

theorem restores_destination (h : lastTab.Restores) (kind : NodeKind) (position : Position) :
    (destination lastTab kind position).Restores := by
  cases position with
  | default =>
    rw [destination]
    split
    · intro t u e he
      cases he
    · exact h.andThen fun tab t => ⟨t, _, rfl⟩
  | top | bottom | before | after =>
    intro t u e he
    exact (congrArg Prod.fst he).symm

theorem restores_move (h : lastTab.Restores) (id : String) (position : Position) :
    (move lastTab id position).Restores := by
  intro t u e he
  rw [move] at he
  split at he
  · cases he
    rfl
  · next n _ =>
    split at he
    · cases he
    · exact (restores_destination h n.kind position).andThen (fun _ _ => ⟨_, _, rfl⟩) t u e he

theorem restores_attach (h : lastTab.Restores) (id : String) (content : Content) :
    (attach lastTab id content).Restores := by
  intro t u e he
  rw [attach] at he
  split at he
  · cases he
    rfl
  · next hid => exact eq_of_orErase (restores_move h id .default) hid he

theorem restores_create (h : lastTab.Restores) (id : String) (content : Content) :
    (create lastTab id content).Restores := by
  intro t u e he
  rw [create] at he
  split at he
  · split at he
    · cases he
    · cases he
      rfl
  · exact restores_attach h id content t u e he

/-- Only the number of the refused line break is used up. -/
theorem eq_of_lineBreak (h : lastTab.Restores) {t : FormTree} {position : Position}
    (he : lineBreak lastTab position t = (u, .error e)) :
    u = { t with lineBreaks := t.nextLineBreak } :=
  eq_of_orErase ((restores_move h _ position).map _) t.node?_nextLineBreak he

end

theorem andThen_relocate {find : FormTree → Except Error (Option String)} (id : String) (a : Anchor)
    (t : FormTree) : andThen (fun t => (t, (find t).map fun c => (c, a)))
      (fun place t => (t.relocate id place.1 place.2, .ok ())) t =
        ofExcept (fun t => (find t).map fun c => t.relocate id c a) t := by
  rw [andThen, ofExcept]
  cases find t <;> rfl

theorem move_eq {lastTab : Change String}
    (h : ∀ t, lastTab t = (t.ensureTab.1, .ok t.ensureTab.2)) (id : String) (position : Position) :
    move lastTab id position = ofExcept fun t => t.place id position := by
  funext t
  rw [move, ofExcept, FormTree.place]
  cases t.node? id with
  | none => rfl
  | some n =>
    dsimp only
    by_cases ht : position.target? = some id
    · rw [if_pos ht, if_pos ht]
    · rw [if_neg ht, if_neg ht]
      cases position with
      | default =>
        dsimp only
        rw [andThen, destination, FormTree.moveToDefault]
        by_cases hk : n.kind = .tab
        · rw [if_pos hk, if_pos hk]
        · rw [if_neg hk, if_neg hk, andThen, h]
      | top target => exact andThen_relocate id .first t
      | bottom target => exact andThen_relocate id .last t
      | before target => exact andThen_relocate id (.before target) t
      | after target => exact andThen_relocate id (.after target) t

/-- A tab is attached without a look at the last tab, so its creation ends. -/
theorem attach_tab (lastTab : Change String) {t : FormTree} {id : String}
    (hid : t.node? id = none) : attach lastTab id .tab t = (t.attachTab id, .ok ()) := by
  rw [attach, hid]
  dsimp only
  rw [orErase, move, FormTree.node?_insertNode_self]
  rfl

theorem ensureTab_eq (lastTab : Change String) (t : FormTree) :
    ensureTab lastTab t = (t.ensureTab.1, .ok t.ensureTab.2) := by
  rw [ensureTab, FormTree.ensureTab]
  cases t.tabs.getLast? with
  | some id => rfl
  | none =>
    dsimp only
    rw [andThen, attach_tab lastTab t.node?_nextTabId]

/-- There is always a last tab in the end. -/
theorem restores_ensureTab (lastTab : Change String) : (ensureTab lastTab).Restores := by
  intro t u e he
  cases (ensureTab_eq lastTab t).symm.trans he

theorem create_eq (lastTab : Change String) (id : String) (content : Content) :
    create (ensureTab lastTab) id content = ofExcept fun t => t.create id content := by
  funext t
  rw [create, ofExcept, FormTree.create]
  cases hid : t.node? id with
  | some n =>
    dsimp only
    split <;> rfl
  | none =>
    dsimp only
    rw [attach, hid]
    dsimp only
    rw [orErase, move_eq (ensureTab_eq lastTab), ofExcept, FormTree.place,
      FormTree.node?_insertNode_self]
    rfl

theorem lineBreak_eq (lastTab : Change String) (position : Position) (t : FormTree) :
    lineBreak (ensureTab lastTab) position t = t.lineBreak position := by
  have hback := erase_insertNode (t := { t with lineBreaks := t.nextLineBreak })
    t.node?_nextLineBreak .lineBreak
  rw [lineBreak, FormTree.lineBreak, orErase, map, move_eq (ensureTab_eq lastTab), ofExcept]
  cases FormTree.place _ (lineBreakId t.nextLineBreak) position with
  | ok u => rfl
  | error e => exact congrArg (fun u => (u, Except.error e)) hback

end Change

end FormLayout
