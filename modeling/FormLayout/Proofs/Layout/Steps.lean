import FormLayout.Layout.Reading
/-!
What the steps of reading do to a given state.
-/

namespace FormLayout.Layout
set_option autoImplicit true

/-- The configuration of a field that is new to the tree, if it is known anywhere. -/
def Surroundings.config? (around : Surroundings) (columns : Columns) (id : String) :
    Option Fields :=
  match around.parent with
  | none => columns.get? id
  | some lookup =>
    match lookup id, columns.get? id with
    | some inherited, some own => some (Column.merge inherited own)
    | some inherited, none => some inherited
    | none, own => own

namespace Reading

def position (r : Reading) : Position :=
  match r.tab with
  | some tab => .bottom tab
  | none => .default

/-- The state after a lookup of a field. -/
def ask (r : Reading) (around : Surroundings) (id : String) : Reading :=
  if around.parent.isSome then { r with asked := id :: r.asked } else r

@[simp] theorem tree_ask (r : Reading) (around : Surroundings) (id : String) :
    (r.ask around id).tree = r.tree := by
  rw [ask]
  split <;> rfl

@[simp] theorem columns_ask (r : Reading) (around : Surroundings) (id : String) :
    (r.ask around id).columns = r.columns := by
  rw [ask]
  split <;> rfl

end Reading

namespace Step

theorem bind_eq (s : Step α) (f : α → Step β) (r : Reading) : (s >>= f) r =
    match s r with
    | .ok a r => f a r
    | .error e r => .error e r := by
  rw [bind, Monad.toBind, EStateM.instMonad]
  simp only [EStateM.bind]
  cases s r <;> rfl

theorem forM_cons_eq {f : α → Step Unit} (a : α) (rest : List α) (r : Reading) :
    (a :: rest).forM f r =
      match f a r with
      | .ok _ r' => rest.forM f r'
      | .error e r' => .error e r' := by
  have hstep : (a :: rest).forM f = f a >>= fun _ => rest.forM f := rfl
  rw [hstep, bind_eq]
  cases f a r <;> rfl

theorem get_bind (f : Reading → Step α) (r : Reading) : (get >>= f) r = f r r := rfl

theorem edit_eq (f : FormTree → Except Error FormTree) (r : Reading) : edit f r =
    match f r.tree with
    | .ok tree => .ok () { r with tree }
    | .error e => .error e r := by
  rw [edit, get_bind]
  cases f r.tree <;> rfl

theorem lineBreak_eq (p : Position) (r : Reading) : lineBreak p r =
    match r.tree.lineBreak p with
    | (tree, .ok _) => .ok () { r with tree }
    | (tree, .error e) => .error e { r with tree } := by
  rw [lineBreak, get_bind]
  obtain ⟨tree, answer⟩ := r.tree.lineBreak p
  cases answer <;> rfl

theorem position_eq (r : Reading) : position r = .ok r.position r := by
  rw [position, get_bind, Reading.position]
  cases r.tab <;> rfl

theorem openTab_eq (item : Item) (r : Reading) : openTab item r =
    let id := toString r.tree.tabs.length
    match r.tree.tab id with
    | .ok u =>
      let tree := u.update id fun n => { n with slots := item.drop 1 }
      .ok () { r with tree, tab := some id }
    | .error e => .error e r := by
  rw [openTab, get_bind]
  dsimp only
  rw [bind_eq, edit_eq]
  cases r.tree.tab (toString r.tree.tabs.length) <;> rfl

theorem configOf?_eq (around : Surroundings) (id : String) (r : Reading) :
    configOf? around id r = .ok (around.config? r.columns id) (r.ask around id) := by
  obtain ⟨palettes, parent⟩ := around
  rw [configOf?, get_bind, Surroundings.config?, Reading.ask]
  cases parent with
  | none => rfl
  | some lookup =>
    dsimp only
    generalize lookup id = inherited
    generalize r.columns.get? id = own
    cases inherited <;> cases own <;> rfl

/-- What the state satisfies after a step, by success and failure. -/
def Ends (s : Step α) (r : Reading) (Q E : Reading → Prop) : Prop :=
  match s r with
  | .ok _ r => Q r
  | .error _ r => E r

namespace Ends

variable {s : Step α} {r : Reading} {Q Q' E E' : Reading → Prop}

theorem ok (h : s.Ends r Q E) (hs : s r = .ok a r') : Q r' := by
  rwa [Ends, hs] at h

theorem error (h : s.Ends r Q E) (hs : s r = .error e r') : E r' := by
  rwa [Ends, hs] at h

theorem of_ok (hs : s r = .ok a r') (h : Q r') : s.Ends r Q E := by
  rwa [Ends, hs]

theorem of_error (hs : s r = .error e r') (h : E r') : s.Ends r Q E := by
  rwa [Ends, hs]

theorem imp (h : s.Ends r Q E) (hQ : ∀ r, Q r → Q' r) (hE : ∀ r, E r → E' r) :
    s.Ends r Q' E' := by
  cases hs : s r with
  | ok a r' => exact of_ok hs (hQ _ (h.ok hs))
  | error e r' => exact of_error hs (hE _ (h.error hs))

theorem bind {f : α → Step β} (h : s.Ends r Q E) (hf : ∀ a r, Q r → (f a).Ends r Q' E) :
    (s >>= f).Ends r Q' E := by
  cases hs : s r with
  | ok a r' =>
    have hb := hf a r' (h.ok hs)
    rwa [Ends, bind_eq, hs]
  | error e r' =>
    have he := h.error hs
    rwa [Ends, bind_eq, hs]

end Ends

/-- A step that keeps a property of the state, also if it fails. -/
def Keeps (P : Reading → Prop) (s : Step α) : Prop := ∀ r, P r → s.Ends r P P

namespace Keeps

variable {P : Reading → Prop}

theorem pure (a : α) : Keeps P (Pure.pure a : Step α) := fun _ hr => hr

theorem bind {s : Step α} {f : α → Step β} (hs : Keeps P s) (hf : ∀ a, Keeps P (f a)) :
    Keeps P (s >>= f) := fun r hr => (hs r hr).bind fun a => hf a

theorem throw (e : Error) : Keeps P (MonadExcept.throw e : Step α) := fun _ hr => hr

theorem forM {f : α → Step Unit} {l : List α} (hf : ∀ a ∈ l, Keeps P (f a)) :
    Keeps P (l.forM f) := by
  induction l with
  | nil => exact pure ()
  | cons a l ih =>
    exact (hf a List.mem_cons_self).bind fun _ => ih fun b hb => hf b (List.mem_cons_of_mem _ hb)

end Keeps

/-- Creates a node unless there is one, gives it slots, and moves it to a position. -/
def put (id : String) (content : Content) (slots : Slots) (p : Position) : Step Unit := do
  Step.edit fun t => t.create id content
  modify fun r => { r with tree := r.tree.update id fun n => { n with slots } }
  Step.edit fun t => t.place id p

theorem put_eq (id : String) (content : Content) (slots : Slots) (p : Position) (r : Reading) :
    put id content slots p r =
      match r.tree.create id content with
      | .error e => .error e r
      | .ok u =>
        let u := u.update id fun n => { n with slots }
        match u.place id p with
        | .ok tree => .ok () { r with tree }
        | .error e => .error e { r with tree := u } := by
  have hm (f : Reading → Reading) (s : Step Unit) (r : Reading) :
      (modify f >>= fun _ => s) r = s (f r) := rfl
  rw [put, bind_eq, edit_eq]
  cases r.tree.create id content with
  | error e => rfl
  | ok u =>
    dsimp only
    rw [hm, edit_eq]

theorem placeField_eq (id : String) (config : Fields) (slots : Slots) (p : Position) :
    placeField id config slots p = put id (.field config) slots p := rfl

theorem addField_eq (around : Surroundings) (inPalette : Bool) (id : String) (slots : Slots)
    (p : Position) (r : Reading) : addField around inPalette id slots p r =
      if id = "" then .ok () r
      else if (r.tree.field? id).isSome then placeField id [] slots p r
      else
        match around.config? r.columns id with
        | some config => placeField id config slots p (r.ask around id)
        | none =>
          if inPalette then
            let r := r.ask around id
            placeField id [] slots p { r with columns := r.columns.put id [] }
          else .ok () (r.ask around id) := by
  rw [addField]
  split
  · rfl
  · have hg (f : Reading → Step Unit) : (get >>= f) r = f r r := rfl
    rw [hg]
    split
    · rfl
    · rw [bind_eq, configOf?_eq]
      cases around.config? r.columns id with
      | some config => rfl
      | none => cases inPalette <;> rfl

theorem position_bind (f : Position → Step α) (r : Reading) :
    (position >>= f) r = f r.position r := by
  rw [bind_eq, position_eq]

theorem addPalette_eq (around : Surroundings) (lead part : String) (rest : List String)
    (r : Reading) : addPalette around (lead :: part :: rest) r =
      let name := (part :: rest).getLastD ""
      match around.palettes.get? name with
      | none => .ok () r
      | some showItem =>
        if (r.tree.palette? name).isSome then .ok () r
        else
          (put (paletteId name) (.palette name) (part :: rest).dropLast r.position >>= fun _ =>
            (ShowItem.parse showItem).forM (addPaletteItem around name)) r := by
  have hg (f : Reading → Step Unit) : (get >>= f) r = f r r := rfl
  rw [addPalette.eq_def]
  dsimp only
  cases around.palettes.get? ((part :: rest).getLastD "") with
  | none => rfl
  | some showItem =>
    dsimp only
    rw [hg]
    split
    · rfl
    · rw [position_bind]
      simp only [put, bind_assoc]
      rfl

theorem addPaletteItem_lineBreak (around : Surroundings) (name : String) {item : Item}
    (hk : item.kind = .special .lineBreak) :
    addPaletteItem around name item = lineBreak (.bottom (paletteId name)) := by
  rw [addPaletteItem, hk]

theorem addPaletteItem_field (around : Surroundings) (name : String) {item : Item} {id : String}
    (hk : item.kind = .field id) : addPaletteItem around name item =
      addField around true id (item.drop 1) (.bottom (paletteId name)) := by
  rw [addPaletteItem, hk]

theorem addItem_tab (around : Surroundings) {item : Item} (hk : item.kind = .special .tab) :
    addItem around item = openTab item := by
  rw [addItem, hk]

theorem addItem_palette (around : Surroundings) {item : Item}
    (hk : item.kind = .special .palette) : addItem around item = addPalette around item := by
  rw [addItem, hk]

theorem addItem_lineBreak (around : Surroundings) {item : Item}
    (hk : item.kind = .special .lineBreak) (r : Reading) :
    addItem around item r = lineBreak r.position r := by
  rw [addItem, hk]
  exact position_bind _ r

theorem addItem_field (around : Surroundings) {item : Item} {id : String}
    (hk : item.kind = .field id) (r : Reading) :
    addItem around item r = addField around false id (item.drop 1) r.position r := by
  rw [addItem, hk]
  exact position_bind _ r

theorem ensureTab_eq (r : Reading) :
    ensureTab r = .ok () { r with tree := r.tree.ensureTab.1 } := rfl

end Step

/-- The items one after another, with a tab in the end. -/
def takeIn (around : Surroundings) (items : List Item) : Step Unit :=
  items.forM (Step.addItem around) >>= fun _ => Step.ensureTab

theorem takeIn_cons (around : Surroundings) (item : Item) (rest : List Item) :
    takeIn around (item :: rest) = Step.addItem around item >>= fun _ => takeIn around rest :=
  bind_assoc (Step.addItem around item) _ _

theorem fill_eq (around : Surroundings) (items : List Item) (r : Reading) : fill around items r =
    (if startsWithTab items then takeIn around items
      else Step.ensureTab >>= fun _ => takeIn around items) { r with tree := r.tree.reset } := by
  have hm (s : Step Unit) : (modify (fun r => { r with tree := r.tree.reset }) >>= fun _ => s) r =
      s { r with tree := r.tree.reset } := rfl
  rw [fill, hm]
  cases startsWithTab items <;> rfl

end FormLayout.Layout
