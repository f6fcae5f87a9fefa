import FormLayout.Proofs.Form.InPlace
import FormLayout.Proofs.Form.Issued
import FormLayout.Proofs.Layout.Synthesis
/-!
The ids that are issued during the life of a tree. A reading issues one for each line break that it
reaches, in the loop over the occurrences of items, and all ids of one life are different.
-/

namespace FormLayout
set_option autoImplicit true

namespace Layout

/-- The end of the palette around an occurrence, or of the open tab. -/
def Occurrence.position (r : Reading) (o : Occurrence) : Position :=
  match o.inside with
  | some name => .bottom (paletteId name)
  | none => r.position

/-- The id that a line break gets when it is taken in. -/
def Occurrence.issued (r : Reading) (o : Occurrence) : List String :=
  if o.item.kind = .special .lineBreak then r.tree.issuedAt (o.position r) else []

/-- The ids that a loop over occurrences issues, up to the occurrence that it fails at. -/
def Step.issued (around : Surroundings) : List Occurrence → Reading → List String
  | [], _ => []
  | o :: rest, r => o.issued r ++ match take around o r with
    | .ok _ r' => issued around rest r'
    | .error _ _ => []

/-- The ids that the reading of a layout into a tree issues. -/
def issued (layout : Layout) (tree : FormTree) (columns : Columns)
    (parent : Option (String → Option Fields)) : List String :=
  let items := ShowItem.parse layout.showItem
  Step.issued ⟨layout.palettes, parent⟩ (occurrences layout.palettes [] items)
    (Reading.start items tree columns)

namespace Step

variable {around : Surroundings} {r : Reading}

/-- After a step the tree has got line breaks with some ids, also if it fails. -/
def Issues (s : Step α) (r : Reading) (ids : List String) : Prop :=
  s.Ends r (fun r' => r.tree.Issues r'.tree ids) fun r' => r.tree.Issues r'.tree ids

/-- The tree has the same line breaks after a step, also if it fails. -/
def Spares (s : Step α) (r : Reading) : Prop :=
  s.Ends r (fun r' => r.tree.SameLineBreaks r'.tree) fun r' => r.tree.SameLineBreaks r'.tree

theorem Spares.issues {s : Step α} (h : s.Spares r) : s.Issues r [] :=
  h.imp (fun _ => FormTree.SameLineBreaks.issues) fun _ => FormTree.SameLineBreaks.issues

theorem spares_put {content : Content} (hk : content.kind ≠ .lineBreak) (id : String)
    (slots : Slots) (p : Position) : (put id content slots p).Spares r := by
  rw [Spares, Ends, put_eq]
  cases hu : r.tree.create id content with
  | error e => exact .refl _
  | ok u =>
    have hfilled := (FormTree.SameLineBreaks.create hk hu).trans
      (.update u id (Node.keepsLinks_slots slots).kind)
    dsimp only
    cases hv : (u.update id fun n => { n with slots }).place id p with
    | error e => exact hfilled
    | ok v => exact hfilled.trans (.place hv)

theorem spares_openTab (item : Item) : (openTab item).Spares r := by
  rw [Spares, Ends, openTab_eq]
  dsimp only
  cases hu : r.tree.tab (toString r.tree.tabs.length) with
  | error e => exact .refl _
  | ok u =>
    exact (FormTree.SameLineBreaks.create (by simp [Content.kind]) hu).trans
      (.update u _ (Node.keepsLinks_slots _).kind)

theorem spares_addField (inPalette : Bool) (id : String) (slots : Slots) (p : Position) :
    (addField around inPalette id slots p).Spares r := by
  have hput {r' : Reading} (config : Fields) (hr : r'.tree = r.tree) :
      (placeField id config slots p).Ends r' (fun r'' => r.tree.SameLineBreaks r''.tree)
        fun r'' => r.tree.SameLineBreaks r''.tree := by
    rw [placeField_eq, ← hr]
    exact spares_put (by simp [Content.kind]) id slots p
  have hask := Reading.tree_ask r around id
  have hasked : r.tree.SameLineBreaks (r.ask around id).tree := by
    rw [hask]
    exact .refl _
  rw [Spares, Ends, addField_eq]
  by_cases hid : id = ""
  · rw [if_pos hid]
    exact .refl _
  rw [if_neg hid]
  by_cases hfield : (r.tree.field? id).isSome = true
  · rw [if_pos hfield]
    exact hput [] rfl
  rw [if_neg hfield]
  cases around.config? r.columns id with
  | some config => exact hput config hask
  | none =>
    cases inPalette with
    | true => exact hput [] hask
    | false => exact hasked

theorem issues_lineBreak (p : Position) : (lineBreak p).Issues r (r.tree.issuedAt p) := by
  have hissues := r.tree.issues_lineBreak p
  rw [Issues, Ends, lineBreak_eq]
  cases hu : r.tree.lineBreak p with
  | mk tree answer =>
    rw [hu] at hissues
    cases answer <;> exact hissues

theorem issues_addPaletteItem (name : String) (item : Item) :
    (addPaletteItem around name item).Issues r (Occurrence.issued r ⟨some name, item⟩) := by
  rw [Occurrence.issued]
  by_cases hline : item.kind = .special .lineBreak
  · rw [if_pos hline, addPaletteItem_lineBreak around name hline]
    exact issues_lineBreak _
  · rw [if_neg hline]
    apply Spares.issues
    cases hk : item.kind with
    | field id =>
      rw [addPaletteItem_field around name hk]
      exact spares_addField true id _ _
    | special token =>
      cases token with
      | lineBreak => exact absurd hk hline
      | tab | palette | unknown =>
        rw [addPaletteItem, hk]
        exact .refl _

theorem issues_addItem {item : Item} (href : item.reference? = none) :
    (addItem around item).Issues r (Occurrence.issued r ⟨none, item⟩) := by
  rw [Occurrence.issued]
  by_cases hline : item.kind = .special .lineBreak
  · rw [if_pos hline, Issues, Ends, addItem_lineBreak around hline]
    exact issues_lineBreak _
  · rw [if_neg hline]
    apply Spares.issues
    cases hk : item.kind with
    | field id =>
      rw [Spares, Ends, addItem_field around hk]
      exact spares_addField false id _ _
    | special token =>
      cases token with
      | lineBreak => exact absurd hk hline
      | tab =>
        rw [addItem_tab around hk]
        exact spares_openTab item
      | palette =>
        have hskip := addPalette_eq_reference around hk r
        rw [href] at hskip
        rw [addItem_palette around hk]
        exact .of_ok hskip (.refl _)
      | unknown =>
        rw [addItem, hk]
        exact .refl _

/-- One occurrence issues an id if it is a line break, and none otherwise. -/
theorem issues_take (around : Surroundings) (o : Occurrence) (r : Reading) :
    (take around o).Issues r (o.issued r) := by
  obtain ⟨inside, item⟩ := o
  cases inside with
  | some name => exact issues_addPaletteItem name item
  | none =>
    rw [take]
    dsimp only
    cases href : item.reference? with
    | some name =>
      have hk := (Item.reference?_eq_some_iff.1 href).1
      have hnone : Occurrence.issued r ⟨none, item⟩ = [] := if_neg (by simp [hk])
      rw [hnone, Issues, Ends]
      dsimp only
      rw [position_bind]
      exact Spares.issues (spares_put (by simp [Content.kind]) _ _ _)
    | none => exact issues_addItem href

theorem issues_forM_take (around : Surroundings) (os : List Occurrence) (r : Reading) :
    (os.forM (take around)).Issues r (issued around os r) := by
  induction os generalizing r with
  | nil => exact (FormTree.SameLineBreaks.refl _).issues
  | cons o rest ih =>
    have hfirst := issues_take around o r
    rw [Issues, Ends, forM_cons_eq, issued]
    cases ho : take around o r with
    | error e r' =>
      rw [List.append_nil]
      exact hfirst.error ho
    | ok a r' =>
      exact (ih r').imp (fun _ => (hfirst.ok ho).trans) fun _ => (hfirst.ok ho).trans

end Step

/-- Reading starts with no line break, and goes on counting where the tree was. -/
theorem sameLineBreaks_start (items : List Item) (tree : FormTree) (columns : Columns) :
    tree.reset.SameLineBreaks (Reading.start items tree columns).tree := by
  rw [Reading.start]
  split
  · exact .refl _
  · exact .ensureTab _

theorem issues_read (layout : Layout) (tree : FormTree) (columns : Columns)
    (parent : Option (String → Option Fields)) :
    tree.reset.Issues (layout.read tree columns parent).tree
      (layout.issued tree columns parent) := by
  have hstart := (sameLineBreaks_start (ShowItem.parse layout.showItem) tree columns).issues
  have hloop := (Step.follows_fill ⟨layout.palettes, parent⟩ (ShowItem.parse layout.showItem) tree
    columns).1
  have hissues := Step.issues_forM_take ⟨layout.palettes, parent⟩
    (occurrences layout.palettes [] (ShowItem.parse layout.showItem))
    (Reading.start (ShowItem.parse layout.showItem) tree columns)
  rw [read, Step.fill_eq_takeIn, hloop]
  dsimp only
  split
  · next h => exact hstart.trans (hissues.ok h)
  · next h => exact hstart.trans (hissues.error h)

end Layout

namespace FormTree

/-- What is done with a tree at once. -/
inductive Use where
  | edit (e : TreeEdit)
  | place (id : String) (position : Position)
  | update (id : String) (f : Node → Node)
  | read (layout : Layout) (columns : Columns) (parent : Option (String → Option Fields))

namespace Use

/-- The tree after a use. A refused move leaves it as it was. -/
def apply (t : FormTree) : Use → FormTree
  | edit e => (t.run e).1
  | place id position => (t.place id position).toOption.getD t
  | update id f => t.update id f
  | read layout columns parent => (layout.read t columns parent).tree

/-- The ids of line breaks that a use issues. -/
def issued (t : FormTree) : Use → List String
  | edit e => e.issued t
  | place _ _ | update _ _ => []
  | read layout columns parent => layout.issued t columns parent

/-- All ids of line breaks that are issued to a tree in the course of some uses. -/
def allIssued (t : FormTree) : List Use → List String
  | [] => []
  | use :: rest => use.issued t ++ allIssued (use.apply t) rest

theorem numbered_issued (t : FormTree) (use : Use) :
    Numbered t.lineBreaks (use.issued t) (use.apply t).lineBreaks := by
  cases use with
  | edit e => exact t.numbered_run e
  | place id position =>
    rw [apply]
    cases hu : t.place id position with
    | error e => exact .nil (Nat.le_refl _)
    | ok u => exact (SameLineBreaks.place hu).issues.numbered
  | update id f => exact .nil (Nat.le_refl _)
  | read layout columns parent => exact (layout.issues_read t columns parent).numbered

theorem numbered_allIssued (t : FormTree) (uses : List Use) :
    Numbered t.lineBreaks (allIssued t uses) (uses.foldl apply t).lineBreaks := by
  induction uses generalizing t with
  | nil => exact .nil (Nat.le_refl _)
  | cons use rest ih => exact (numbered_issued t use).append (ih (use.apply t))

end Use

/-- The ids that a tree makes up are free, whatever ids its nodes have. The searches for the id of a
tab and of a line break end, at the first number that no node has. So the id of a new tab never
collides with a node, and neither adding a tab in place nor making sure that there is one fails,
however the last tab is found. All ids that line breaks get in the course of any uses of the tree
are different, though they are removed, reset or read anew in between; those that a reading issues
are the ids of the line breaks that the tree has then. -/
theorem generated_ids_fresh (t : FormTree) :
    (∃ n, SearchEnds (fun k => t.has (toString k)) t.tabs.length n ∧ t.nextTabId = toString n ∧
      t.node? t.nextTabId = none) ∧
    (∀ lastTab, Change.attach lastTab t.nextTabId .tab t = (t.addTab.1, .ok ()) ∧
      Change.ensureTab lastTab t = (t.ensureTab.1, .ok t.ensureTab.2)) ∧
    (∀ position, ∃ n, SearchEnds (fun k => t.has (lineBreakId k)) (t.lineBreaks + 1) n ∧
      t.node? (lineBreakId n) = none ∧ (t.lineBreak position).1.lineBreaks = n ∧
      ((t.lineBreak position).2 = .ok (lineBreakId n) ∨
        ∃ e, (t.lineBreak position).2 = .error e)) ∧
    (∀ uses, (Use.allIssued t uses).Nodup) ∧
    ∀ layout columns parent,
      (Layout.read layout t columns parent).tree.lineBreakIds = layout.issued t columns parent := by
  refine ⟨?_, ?_, ?_, ?_, ?_⟩
  · obtain ⟨n, hn, hid⟩ := t.searchEnds_nextTabId
    exact ⟨n, hn, hid, t.node?_nextTabId⟩
  · intro lastTab
    exact ⟨Change.attach_tab lastTab t.node?_nextTabId, Change.ensureTab_eq lastTab t⟩
  · intro position
    refine ⟨_, t.searchEnds_nextLineBreak, t.node?_nextLineBreak, t.lineBreaks_lineBreak position, ?_⟩
    cases hu : t.lineBreak position with
    | mk u answer =>
      cases answer with
      | error e => exact .inr ⟨e, rfl⟩
      | ok id => exact .inl (congrArg Except.ok (lineBreak_ok_cases hu).1)
  · exact fun uses => (Use.numbered_allIssued t uses).nodup
  · exact fun layout columns parent => (layout.issues_read t columns parent).lineBreakIds

/-- A field has the id of the first line break, and the numbers go on after a reset and a reading. -/
example : Use.allIssued (empty "general") [.edit (.field "--linebreak-1--" [] []),
    .edit (.lineBreak "" []), .edit .reset, .read ⟨"--linebreak--", []⟩ [] none,
    .edit (.remove "--linebreak-3--"), .edit (.lineBreak "" [])] =
      ["--linebreak-2--", "--linebreak-3--", "--linebreak-4--"] := by
  decide +kernel

end FormTree

end FormLayout
