import FormLayout.Form.Edit
import FormLayout.Proofs.Form.Walk
import FormLayout.Proofs.Form.Moves
/-!
Edits keep the links of a tree, whether they succeed or fail. A node becomes loose only when a line
break is put at a position relative to itself.
-/

namespace FormLayout
set_option autoImplicit true

/-- The position of a new line break refers to a node of the tree, if to any. -/
def TreeEdit.Anchored (t : FormTree) : TreeEdit → Prop
  | .lineBreak position _ => ∀ p, Position.parse position = .ok p →
    ∀ id, p.target? = some id → t.has id = true
  | _ => True

namespace FormTree.Joined

variable {t u : FormTree} {loose loose' : String → Prop}

theorem of_retains (h : t.Joined loose) (hr : t.Retains u) (hu : u.Linked loose')
    (hle : ∀ x, loose' x → loose x) : u.Joined loose' := by
  refine ⟨hu, fun {id m} hl hm => ?_⟩
  obtain ⟨n, hn⟩ := h.loose_node (hle id hl)
  obtain ⟨m', hm', hk⟩ := hr hn
  cases hm.symm.trans hm'
  exact hk.trans (h.stray (hle id hl) hn)

theorem update (h : t.Joined loose) (id : String) (hf : Node.KeepsLinks f) :
    (t.update id f).Joined loose :=
  h.of_retains (retains_update t id hf) (h.toLinked.update id hf) fun _ hx => hx

theorem attachTab (h : t.Joined loose) {id : String} (hid : t.node? id = none) :
    (t.attachTab id).Joined loose := by
  refine h.of_retains (fun x n hn => ?_) (h.toLinked.attachTab hid) fun _ hx => hx
  exact ⟨n, by rw [h.node?_attachTab hid, if_neg (Linked.ne_of_fresh hid hn), hn], rfl⟩

theorem ensureTab (h : t.Joined loose) : t.ensureTab.1.Joined loose :=
  h.of_retains h.retains_ensureTab h.toLinked.ensureTab fun _ hx => hx

theorem create (h : t.Joined loose) {id : String}
    (hp : ∀ name, content = .palette name → id = paletteId name)
    (hu : t.create id content = .ok u) : u.Joined loose :=
  h.of_retains (h.retains_create hp hu) (h.toLinked.create hp hu) fun _ hx => hx

theorem moveTo (h : t.Joined loose) {id : String} (hu : t.moveTo id position = .ok u) :
    ∃ loose', u.Joined loose' ∧ ∀ x, loose' x → loose x := by
  obtain ⟨p, _, hplace⟩ := moveTo_cases hu
  exact ⟨_, h.of_retains (h.retains_place hplace) (h.place hplace) fun _ hx => hx.1,
    fun _ hx => hx.1⟩

theorem removeAnswering (h : t.Joined loose) (id : String) :
    ∃ loose', (t.removeAnswering id).1.Joined loose' ∧ ∀ x, loose' x → loose x := by
  rw [FormTree.removeAnswering]
  split
  · next hu =>
    refine ⟨_, ⟨h.remove hu, fun {x m} hl hm => ?_⟩, fun _ hx => hx.1⟩
    rw [(h.node?_remove hu).2.2 x hl.2] at hm
    obtain ⟨n, hn, rfl⟩ := Option.map_eq_some_iff.1 hm
    exact (Node.kind_taken id n).trans (h.stray hl.1 hn)
  · exact ⟨loose, h, fun _ hx => hx⟩

theorem editNode (h : t.Joined loose) (id : String) (edits : List NodeEdit) :
    ∃ loose', (t.editNode id edits).1.Joined loose' ∧ ∀ x, loose' x → loose x := by
  induction edits generalizing t loose with
  | nil => exact ⟨loose, h, fun _ hx => hx⟩
  | cons e rest ih =>
    cases e with
    | label text => exact ih (h.update id (Node.keepsLinks_setLabel _))
    | clearLabel => exact ih (h.update id (Node.keepsLinks_setLabel _))
    | slots slots => exact ih (h.update id (Node.keepsLinks_slots _))
    | set fields => exact ih (h.update id (Node.keepsLinks_configure _))
    | unset names => exact ih (h.update id (Node.keepsLinks_configure _))
    | merge fields => exact ih (h.update id (Node.keepsLinks_configure _))
    | remove => exact h.removeAnswering id
    | move position =>
      rw [FormTree.editNode]
      split
      · next hu =>
        obtain ⟨_, hmoved, hle⟩ := h.moveTo hu
        obtain ⟨loose', hedited, hle'⟩ := ih hmoved
        exact ⟨loose', hedited, fun x hx => hle x (hle' x hx)⟩
      · exact ⟨loose, h, fun _ hx => hx⟩

theorem thenEdit (h : t.Joined loose) {r : Except Error FormTree}
    (hr : ∀ u, r = .ok u → u.Joined loose) (id : String) (edits : List NodeEdit) :
    ∃ loose', (t.thenEdit id edits r).1.Joined loose' ∧ ∀ x, loose' x → loose x := by
  cases r with
  | ok u => exact (hr u rfl).editNode id edits
  | error e => exact ⟨loose, h, fun _ hx => hx⟩

/-- A new line break is the one node that may be loose. -/
theorem insertLineBreak (h : t.Joined loose) {id : String} (hid : t.node? id = none) :
    (t.insertNode id .lineBreak).Joined fun x => x = id ∨ loose x := by
  refine ⟨h.insertNode hid (by simp), fun {x m} hl hm => ?_⟩
  rw [node?_insertNode] at hm
  split at hm
  · rw [← Option.some.inj hm]
    rfl
  · next hne => exact h.stray (hl.resolve_left hne) hm

theorem lineBreak (h : t.Joined loose) (position : Position) :
    ∃ loose', (t.lineBreak position).1.Joined loose' ∧
      ((∀ id, position.target? = some id → t.has id = true) → ∀ x, loose' x → loose x) := by
  have hnumbered (k : Nat) : { t with lineBreaks := k }.Joined loose := ⟨h.numbering k, h.stray⟩
  cases hu : t.lineBreak position with
  | mk u answer =>
    cases answer with
    | error e =>
      rw [lineBreak_error_cases hu]
      exact ⟨loose, hnumbered _, fun _ _ hx => hx⟩
    | ok id =>
      obtain ⟨rfl, hplace⟩ := lineBreak_ok_cases hu
      have hi := (hnumbered t.nextLineBreak).insertLineBreak t.node?_nextLineBreak
      refine ⟨_, hi.of_retains (hi.retains_place hplace) (hi.place hplace) fun _ hx => hx.1,
        fun ht x hx => hx.1.resolve_left fun he => ?_⟩
      obtain ⟨n, hn⟩ := has_iff.1 (ht _ (hx.2 he))
      cases t.node?_nextLineBreak.symm.trans hn

/-- Any edit leaves a joined tree; only unanchored ones leave it with more loose nodes. -/
theorem run (h : t.Joined loose) (e : TreeEdit) : ∃ loose', (t.run e).1.Joined loose' ∧
    (e.Anchored t → ∀ x, loose' x → loose x) := by
  have hkeep {v : FormTree} (hv : ∃ loose', v.Joined loose' ∧ ∀ x, loose' x → loose x) :
      ∃ loose', v.Joined loose' ∧ (e.Anchored t → ∀ x, loose' x → loose x) := by
    obtain ⟨loose', hl, hle⟩ := hv
    exact ⟨loose', hl, fun _ => hle⟩
  have hsame {v : FormTree} (hv : v.Joined loose) :
      ∃ loose', v.Joined loose' ∧ (e.Anchored t → ∀ x, loose' x → loose x) :=
    ⟨loose, hv, fun _ _ hx => hx⟩
  cases e with
  | tab id edits => exact hkeep (h.thenEdit (fun u hu => h.create (by simp) hu) id edits)
  | addTab edits => exact hkeep ((h.attachTab t.node?_nextTabId).editNode _ edits)
  | palette name edits =>
    exact hkeep (h.thenEdit (fun u hu => h.create (by simp) hu) _ edits)
  | field id config edits => exact hkeep (h.thenEdit (fun u hu => h.create (by simp) hu) id edits)
  | node id edits =>
    rw [FormTree.run]
    split
    · exact hkeep (h.editNode id edits)
    · exact hsame h
  | lineBreak position edits =>
    rw [FormTree.run]
    split
    · exact hsame h
    · next p hp =>
      obtain ⟨loose', hl, hle⟩ := h.lineBreak p
      split
      · next v id hv =>
        rw [hv] at hl
        obtain ⟨loose'', hl', hle'⟩ := hl.editNode id edits
        exact ⟨loose'', hl', fun ha x hx => hle (ha p hp) x (hle' x hx)⟩
      · next v e hv =>
        rw [hv] at hl
        exact ⟨loose', hl, fun ha => hle (ha p hp)⟩
  | move id position =>
    rw [FormTree.run]
    split
    · next hu => exact hkeep (h.moveTo hu)
    · exact hsame h
  | tryMove id position =>
    rw [FormTree.run]
    split
    · next hu => exact hkeep (h.moveTo (eq_ok_of_recovered hu))
    · exact hsame h
    · exact hsame h
  | remove id => exact hkeep (h.removeAnswering id)
  | ensureTab => exact hsame h.ensureTab
  | reset => exact ⟨_, (Linked.reset t).joined, fun _ _ hx => hx.elim⟩
  | setLabel id label =>
    rw [FormTree.run]
    split
    · exact hsame (h.update id (Node.keepsLinks_setLabel _))
    · exact hsame h

end FormTree.Joined

theorem FormTree.Linked.run {t : FormTree} (h : t.Linked fun _ => False) {e : TreeEdit}
    (he : e.Anchored t) : (t.run e).1.Linked fun _ => False := by
  obtain ⟨loose, hjoined, hle⟩ := h.joined.run e
  exact hjoined.congr fun x => ⟨hle he x, False.elim⟩

end FormLayout
