import FormLayout.Proofs.Layout.Steps
/-!
What reading does to the columns: empty configurations are put in for some fields, and nothing else
changes.
-/

namespace FormLayout.Layout
set_option autoImplicit true

namespace Step

variable {around : Surroundings} {P : Columns → Prop}

theorem keeps_put (id : String) (content : Content) (slots : Slots) (p : Position) :
    Keeps (fun r => P r.columns) (put id content slots p) := by
  intro r hr
  rw [Ends, put_eq]
  cases r.tree.create id content with
  | error e => exact hr
  | ok u =>
    dsimp only
    cases (u.update id fun n => { n with slots }).place id p <;> exact hr

theorem keeps_lineBreak (p : Position) : Keeps (fun r => P r.columns) (lineBreak p) := by
  intro r hr
  rw [Ends, lineBreak_eq]
  obtain ⟨tree, answer⟩ := r.tree.lineBreak p
  cases answer <;> exact hr

theorem keeps_openTab (item : Item) : Keeps (fun r => P r.columns) (openTab item) := by
  intro r hr
  rw [Ends, openTab_eq]
  dsimp only
  cases r.tree.tab (toString r.tree.tabs.length) <;> exact hr

theorem keeps_ensureTab : Keeps (fun r => P r.columns) ensureTab := fun _ hr => hr

variable (hP : ∀ columns id, P columns → P (columns.put id []))

include hP

theorem keeps_addField (inPalette : Bool) (id : String) (slots : Slots) (p : Position) :
    Keeps (fun r => P r.columns) (addField around inPalette id slots p) := by
  intro r hr
  have hask : P (r.ask around id).columns := by
    rw [Reading.columns_ask]
    exact hr
  rw [Ends, addField_eq]
  by_cases hne : id = ""
  · rw [if_pos hne]
    exact hr
  · rw [if_neg hne]
    by_cases hf : (r.tree.field? id).isSome = true
    · rw [if_pos hf]
      exact keeps_put id _ slots p r hr
    · rw [if_neg hf]
      cases around.config? r.columns id with
      | some config => exact keeps_put id _ slots p _ hask
      | none =>
        cases inPalette with
        | false => exact hask
        | true => exact keeps_put id _ slots p _ (hP _ id hask)

theorem keeps_columns_addPaletteItem (name : String) (item : Item) :
    Keeps (fun r => P r.columns) (addPaletteItem around name item) := by
  rw [addPaletteItem]
  cases item.kind with
  | field id => exact keeps_addField hP true id _ _
  | special token =>
    cases token with
    | lineBreak => exact keeps_lineBreak _
    | tab => exact .throw _
    | palette => exact .throw _
    | unknown token => exact .throw _

theorem keeps_addPalette (item : Item) :
    Keeps (fun r => P r.columns) (addPalette around item) := by
  intro r hr
  match item with
  | [] => exact hr
  | [_] => exact hr
  | lead :: part :: rest =>
    rw [Ends, addPalette_eq]
    dsimp only
    cases around.palettes.get? ((part :: rest).getLastD "") with
    | none => exact hr
    | some showItem =>
      dsimp only
      by_cases ht : (r.tree.palette? ((part :: rest).getLastD "")).isSome = true
      · rw [if_pos ht]
        exact hr
      · rw [if_neg ht]
        apply Keeps.bind (keeps_put _ _ _ _) _ r hr
        intro _
        exact .forM fun i _ => keeps_columns_addPaletteItem hP _ i

theorem keeps_addItem (item : Item) : Keeps (fun r => P r.columns) (addItem around item) := by
  intro r hr
  cases hk : item.kind with
  | field id =>
    rw [Ends, addItem_field around hk]
    exact keeps_addField hP false id _ _ r hr
  | special token =>
    cases token with
    | lineBreak =>
      rw [Ends, addItem_lineBreak around hk]
      exact keeps_lineBreak _ r hr
    | tab =>
      rw [addItem_tab around hk]
      exact keeps_openTab item r hr
    | palette =>
      rw [addItem_palette around hk]
      exact keeps_addPalette hP item r hr
    | unknown token =>
      rw [addItem, hk]
      exact hr

theorem keeps_fill (items : List Item) : Keeps (fun r => P r.columns) (fill around items) := by
  have htake : Keeps (fun r => P r.columns) (takeIn around items) := by
    apply Keeps.bind
    · exact .forM fun i _ => keeps_addItem hP i
    · exact fun _ => keeps_ensureTab
  intro r hr
  rw [Ends, fill_eq]
  cases startsWithTab items with
  | true => exact htake _ hr
  | false => exact Keeps.bind keeps_ensureTab (fun _ => htake) _ hr

end Step

/-- What holds of the columns for as long as empty configurations are put in holds of the columns
that are read. -/
theorem columns_read {P : Columns → Prop} (hP : ∀ columns id, P columns → P (columns.put id []))
    {columns : Columns} (h : P columns) (layout : Layout) (tree : FormTree)
    (parent : Option (String → Option Fields)) : P (layout.read tree columns parent).columns := by
  have hfill : (fill ⟨layout.palettes, parent⟩ (ShowItem.parse layout.showItem)).Ends
      ⟨tree, columns, none, []⟩ (fun r => P r.columns) (fun r => P r.columns) :=
    Step.keeps_fill hP _ _ h
  rw [read]
  split
  · next hr => exact hfill.ok hr
  · next hr => exact hfill.error hr

end FormLayout.Layout
