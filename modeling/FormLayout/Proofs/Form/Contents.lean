import FormLayout.Form.Edit
import FormLayout.Proofs.Form.Moves
import FormLayout.Proofs.ShowItem
/-!
Properties of nodes that do not depend on their places. What holds of every node still does after
any moves, and after any edits that keep it.
-/

namespace FormLayout
set_option autoImplicit true

/-- A property that moves keep, and that the nodes have which a tree makes up itself. -/
structure Node.Lasting (label : String) (P : Node → Prop) : Prop where
  place {n : Node} (parent : Option String) (children : List String) :
    P n → P { n with parent, children }
  tab (id : String) : P (Node.fresh id .tab)
  lineBreak (id : String) : P (Node.fresh id .lineBreak)
  label {n : Node} : P n → P (n.setLabel (some label))

/-- An edit after which a node has the property if it had it before. -/
def NodeEdit.Keeps (P : Node → Prop) : NodeEdit → Prop
  | .label text => ∀ n, P n → P (n.setLabel (some text))
  | .clearLabel => ∀ n, P n → P (n.setLabel none)
  | .slots new => ∀ n, P n → P { n with slots := new }
  | .set fields => ∀ n, P n → P (n.configure fun c => c.extend fields)
  | .unset names => ∀ n, P n → P (n.configure fun c => names.foldl Entries.erase c)
  | .merge fields => ∀ n, P n → P (n.configure fun c => Column.merge c fields)
  | .move _ | .remove => True

def TreeEdit.Keeps (P : Node → Prop) : TreeEdit → Prop
  | .tab _ edits | .addTab edits | .lineBreak _ edits | .node _ edits => ∀ e ∈ edits, e.Keeps P
  | .palette name edits =>
    P (Node.fresh (paletteId name) (.palette name)) ∧ ∀ e ∈ edits, e.Keeps P
  | .field id config edits => P (Node.fresh id (.field config)) ∧ ∀ e ∈ edits, e.Keeps P
  | .setLabel _ label => ∀ n, P n → P (n.setLabel label)
  | .move _ _ | .tryMove _ _ | .remove _ | .ensureTab | .reset => True

namespace FormTree

/-- Every node has the property, and new tabs get the label. -/
structure Holds (label : String) (P : Node → Prop) (t : FormTree) : Prop where
  label_eq : t.defaultTabLabel = label
  nodes {id : String} {n : Node} : t.node? id = some n → P n

namespace Holds

variable {t u : FormTree} {label : String} {P : Node → Prop}

theorem reset (h : t.Holds label P) : t.reset.Holds label P :=
  ⟨h.label_eq, fun hx => by cases hx⟩

theorem numbering (h : t.Holds label P) (k : Nat) : { t with lineBreaks := k }.Holds label P :=
  ⟨h.label_eq, h.nodes⟩

theorem update (h : t.Holds label P) (id : String) (hf : ∀ n, P n → P (f n)) :
    (t.update id f).Holds label P := by
  refine ⟨h.label_eq, fun {x n} hx => ?_⟩
  rw [node?_update] at hx
  split at hx
  · obtain ⟨m, hm, rfl⟩ := Option.map_eq_some_iff.1 hx
    exact hf m (h.nodes hm)
  · exact h.nodes hx

theorem insertNode (h : t.Holds label P) {id : String} {content : Content}
    (hn : P (Node.fresh id content)) : (t.insertNode id content).Holds label P := by
  refine ⟨h.label_eq, fun {x n} hx => ?_⟩
  rw [node?_insertNode] at hx
  split at hx
  · cases hx
    exact hn
  · exact h.nodes hx

theorem detach (h : t.Holds label P) (hP : Node.Lasting label P) (id : String) :
    (t.detach id).Holds label P := by
  rw [FormTree.detach]
  split
  · exact (h.update id fun n hn => hP.place none n.children hn).update _
      fun n hn => hP.place n.parent _ hn
  · exact ⟨h.label_eq, h.nodes⟩

theorem attach (h : t.Holds label P) (hP : Node.Lasting label P) (id : String)
    (c : Option String) (a : Anchor) : (t.attach id c a).Holds label P := by
  cases c with
  | none => exact ⟨h.label_eq, h.nodes⟩
  | some p =>
    exact (h.update p fun n hn => hP.place n.parent _ hn).update id
      fun n hn => hP.place (some p) n.children hn

theorem relocate (h : t.Holds label P) (hP : Node.Lasting label P) (id : String)
    (c : Option String) (a : Anchor) : (t.relocate id c a).Holds label P :=
  (h.detach hP id).attach hP id c a

theorem attachTab (h : t.Holds label P) (hP : Node.Lasting label P) (id : String) :
    (t.attachTab id).Holds label P :=
  (h.insertNode (hP.tab id)).relocate hP id none .last

theorem ensureTab (h : t.Holds label P) (hP : Node.Lasting label P) :
    t.ensureTab.1.Holds label P := by
  cases ht : t.tabs.getLast? with
  | some tab =>
    rw [ensureTab_of_mem ht]
    exact h
  | none =>
    rw [ensureTab_of_nil (List.getLast?_eq_none_iff.1 ht), h.label_eq]
    exact (h.attachTab hP _).update _ fun n => hP.label

theorem moveToDefault (h : t.Holds label P) (hP : Node.Lasting label P) (id : String)
    (kind : NodeKind) : (t.moveToDefault id kind).Holds label P := by
  rw [FormTree.moveToDefault]
  split
  · exact h.relocate hP id none .last
  · exact (h.ensureTab hP).relocate hP id _ .last

theorem place (h : t.Holds label P) (hP : Node.Lasting label P) {id : String}
    (hu : t.place id position = .ok u) : u.Holds label P := by
  obtain ⟨n, _, ⟨_, rfl⟩ | ⟨_, rfl | ⟨c, a, _, rfl⟩⟩⟩ := place_ok_cases hu
  · exact h
  · exact h.moveToDefault hP id _
  · exact h.relocate hP id c a

theorem moveTo (h : t.Holds label P) (hP : Node.Lasting label P) {id : String}
    (hu : t.moveTo id position = .ok u) : u.Holds label P := by
  obtain ⟨p, _, hu⟩ := moveTo_cases hu
  exact h.place hP hu

theorem create (h : t.Holds label P) (hP : Node.Lasting label P) {id : String}
    (hn : t.node? id = none → P (Node.fresh id content)) (hu : t.create id content = .ok u) :
    u.Holds label P := by
  rcases create_cases hu with ⟨rfl, _⟩ | ⟨hid, rfl⟩
  · exact h
  · exact (h.insertNode (hn hid)).moveToDefault hP id _

theorem lineBreak (h : t.Holds label P) (hP : Node.Lasting label P) (position : Position) :
    (t.lineBreak position).1.Holds label P := by
  cases hu : t.lineBreak position with
  | mk u answer =>
    cases answer with
    | ok id =>
      exact ((h.numbering _).insertNode (hP.lineBreak id)).place hP (lineBreak_ok_cases hu).2
    | error e =>
      rw [lineBreak_error_cases hu]
      exact h.numbering _

theorem remove (h : t.Holds label P) (hP : Node.Lasting label P) {id : String}
    (hu : t.remove id = .ok (u, removed)) : u.Holds label P := by
  rw [FormTree.remove] at hu
  split at hu
  · cases hu
    have hd := h.detach hP id
    refine ⟨hd.label_eq, fun {x n} hx => ?_⟩
    have hx : (((t.detach id).subtree levels id).foldl (fun m n => Entries.erase m n.id)
        (t.detach id).nodes).get? x = some n := hx
    rw [← List.foldl_map, Entries.get?_eraseAll] at hx
    split at hx
    · cases hx
    · exact hd.nodes hx
  · cases hu

theorem removeAnswering (h : t.Holds label P) (hP : Node.Lasting label P) (id : String) :
    (t.removeAnswering id).1.Holds label P := by
  rw [FormTree.removeAnswering]
  split
  · next hu => exact h.remove hP hu
  · exact h

theorem editNode (h : t.Holds label P) (hP : Node.Lasting label P) {edits : List NodeEdit}
    (id : String) (he : ∀ e ∈ edits, e.Keeps P) : (t.editNode id edits).1.Holds label P := by
  induction edits generalizing t with
  | nil => exact h
  | cons e rest ih =>
    have hrest : ∀ e ∈ rest, e.Keeps P := fun e hm => he e (List.mem_cons_of_mem _ hm)
    have hfirst := he e List.mem_cons_self
    cases e with
    | label label => exact ih (h.update id hfirst) hrest
    | clearLabel => exact ih (h.update id hfirst) hrest
    | slots slots => exact ih (h.update id hfirst) hrest
    | set fields => exact ih (h.update id hfirst) hrest
    | unset names => exact ih (h.update id hfirst) hrest
    | merge fields => exact ih (h.update id hfirst) hrest
    | remove => exact h.removeAnswering hP id
    | move position =>
      rw [FormTree.editNode]
      split
      · next hu => exact ih (h.moveTo hP hu) hrest
      · exact h

theorem run (h : t.Holds label P) (hP : Node.Lasting label P) {e : TreeEdit}
    (he : e.Keeps P) : (t.run e).1.Holds label P := by
  have hthen {id edits r} (hr : ∀ u, r = .ok u → u.Holds label P)
      (hed : ∀ e ∈ edits, NodeEdit.Keeps P e) : (t.thenEdit id edits r).1.Holds label P := by
    cases r with
    | ok u => exact (hr u rfl).editNode hP id hed
    | error e => exact h
  cases e with
  | tab id edits => exact hthen (fun u hu => h.create hP (fun _ => hP.tab id) hu) he
  | addTab edits => exact (h.attachTab hP _).editNode hP _ he
  | palette name edits => exact hthen (fun u hu => h.create hP (fun _ => he.1) hu) he.2
  | field id config edits => exact hthen (fun u hu => h.create hP (fun _ => he.1) hu) he.2
  | lineBreak position edits =>
    rw [FormTree.run]
    split
    · exact h
    · next p _ =>
      have hl := h.lineBreak hP p
      split <;> next hu => rw [hu] at hl; first | exact hl.editNode hP _ he | exact hl
  | node id edits =>
    rw [FormTree.run]
    split
    · exact h.editNode hP id he
    · exact h
  | move id position =>
    rw [FormTree.run]
    split
    · next hu => exact h.moveTo hP hu
    · exact h
  | tryMove id position =>
    rw [FormTree.run]
    split
    · next hu => exact h.moveTo hP (eq_ok_of_recovered hu)
    · exact h
    · exact h
  | remove id => exact h.removeAnswering hP id
  | ensureTab => exact h.ensureTab hP
  | reset => exact h.reset
  | setLabel id label =>
    rw [FormTree.run]
    split
    · exact h.update id he
    · exact h

end Holds

end FormTree

/-- Only plain texts come into the items of the node. -/
structure Node.Plain (n : Node) : Prop where
  slots : ∀ s ∈ n.slots, Text.Plain s
  field {config : Fields} : n.content = .field config →
    Text.Plain n.id ∧ n.id ≠ "" ∧ SpecialToken.ofPart? n.id = none
  palette {name : String} : n.content = .palette name → Text.Plain name

theorem Slots.mem_put {slots : Slots} {x : String} (h : x ∈ slots.put index value) :
    x = value ∨ x = "" ∨ x ∈ slots := by
  rcases List.mem_or_eq_of_mem_set h with h | h
  · rcases List.mem_append.1 h with h | h
    · exact .inr (.inr h)
    · exact .inr (.inl (List.eq_of_mem_replicate h))
  · exact .inl h

theorem Node.Plain.withSlots {slots : Slots} (h : Node.Plain n) (hs : ∀ s ∈ slots, Text.Plain s) :
    Node.Plain { n with slots } :=
  ⟨hs, h.field, h.palette⟩

theorem Node.Plain.setLabel (h : Node.Plain n) (hl : ∀ text, label = some text → Text.Plain text) :
    (n.setLabel label).Plain := by
  cases label with
  | some text =>
    refine h.withSlots fun s hs => ?_
    rcases Slots.mem_put hs with rfl | rfl | hs
    · exact hl s rfl
    · exact Text.plain_empty
    · exact h.slots s hs
  | none =>
    rw [Node.setLabel]
    split
    · exact h
    · refine h.withSlots fun s hs => ?_
      rcases Slots.mem_put hs with rfl | rfl | hs
      · exact Text.plain_empty
      · exact Text.plain_empty
      · exact h.slots s hs

theorem Node.Plain.configure (h : Node.Plain n) (f : Fields → Fields) : (n.configure f).Plain := by
  rw [Node.configure]
  split
  · next config hc => exact ⟨h.slots, fun _ => h.field hc, by simp⟩
  · exact h

theorem Node.lasting_plain (hl : Text.Plain label) : Node.Lasting label Node.Plain where
  place _ _ h := ⟨h.slots, h.field, h.palette⟩
  tab _ := ⟨by simp [Node.fresh], (nomatch ·), (nomatch ·)⟩
  lineBreak _ := ⟨by simp [Node.fresh], (nomatch ·), (nomatch ·)⟩
  label h := h.setLabel fun _ he => Option.some.inj he ▸ hl

end FormLayout
