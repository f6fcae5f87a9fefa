import FormLayout.Proofs.Column.Rebase
import FormLayout.Proofs.Table.Alike
/-!
Forgetting what the types remember of a field. Each type that shows the field gets it anew from the
base, with what it changed itself. That is of no effect on the compiled document as long as the base is
as it was remembered.
-/

namespace FormLayout
set_option autoImplicit true
open Value Column

namespace FormTree

variable {t : FormTree} {id : String}

theorem field?_configure (t : FormTree) (id : String) (f : Fields → Fields) (x : String) :
    ((t.update id fun n => n.configure f).field? x).bind Node.config? =
      if x = id then ((t.field? x).bind Node.config?).map f
      else (t.field? x).bind Node.config? := by
  rw [field?, field?, node?_update]
  split
  · cases t.node? x with
    | none => rfl
    | some n =>
      obtain ⟨x, slots, parent, children, content⟩ := n
      cases content <;> rfl
  · rfl

section Layout

variable {f : Fields → Fields}

theorem bind_node?_configure {view : Node → Option β}
    (h : ∀ n : Node, view (n.configure f) = view n) (x : String) :
    ((t.update id fun n => n.configure f).node? x).bind view = (t.node? x).bind view := by
  rw [node?_update]
  split
  · cases t.node? x with
    | none => rfl
    | some n => exact h n
  · rfl

theorem children_configure (n : Node) : (n.configure f).children = n.children := by
  rw [Node.configure]
  split <;> rfl

theorem filterMap_childNodes_configure {view : Node → Option β}
    (h : ∀ n : Node, view (n.configure f) = view n) (x : String) :
    ((t.update id fun n => n.configure f).childNodes x).filterMap view =
      (t.childNodes x).filterMap view := by
  have hlist (ids : List String) :
      (ids.filterMap (t.update id fun n => n.configure f).node?).filterMap view =
        (ids.filterMap t.node?).filterMap view := by
    rw [List.filterMap_filterMap, List.filterMap_filterMap]
    exact List.filterMap_congr fun c _ => bind_node?_configure h c
  rw [childNodes, childNodes, node?_update]
  by_cases hx : x = id
  · rw [if_pos hx]
    cases t.node? x with
    | none => rfl
    | some n =>
      dsimp only [Option.map_some]
      rw [children_configure]
      exact hlist n.children
  · rw [if_neg hx]
    cases t.node? x with
    | none => rfl
    | some n => exact hlist n.children

theorem flatMap_tabNodes_configure {view : Node → List β}
    (h : ∀ n : Node, view (n.configure f) = view n) :
    (t.update id fun n => n.configure f).tabNodes.flatMap view = t.tabNodes.flatMap view := by
  rw [tabNodes, tabNodes, flatMap_filterMap, flatMap_filterMap]
  apply List.flatMap_congr
  intro x _
  rw [node?_update]
  split
  · cases t.node? x with
    | none => rfl
    | some n =>
      rw [Option.map_some, Option.toList_some, Option.toList_some, List.flatMap_singleton,
        List.flatMap_singleton, h]
  · rfl

/-- Configurations are not part of a layout. -/
theorem layout_configure (t : FormTree) (id : String) (f : Fields → Fields) :
    (t.update id fun n => n.configure f).layout = t.layout := by
  have hnode (n : Node) : (n.configure f).id = n.id ∧ (n.configure f).slots = n.slots ∧
      (n.configure f).palette? = n.palette? := by
    obtain ⟨x, slots, parent, children, content⟩ := n
    cases content <;> exact ⟨rfl, rfl, rfl⟩
  have htab (n : Node) : Layout.itemInTab? (n.configure f) = Layout.itemInTab? n := by
    obtain ⟨x, slots, parent, children, content⟩ := n
    cases content <;> rfl
  have hpalette (n : Node) : Layout.itemInPalette? (n.configure f) = Layout.itemInPalette? n := by
    obtain ⟨x, slots, parent, children, content⟩ := n
    cases content <;> rfl
  have hitems : (t.update id fun n => n.configure f).itemsOfTab = t.itemsOfTab := by
    funext tab
    rw [itemsOfTab, itemsOfTab, filterMap_childNodes_configure htab]
  have hinside : (t.update id fun n => n.configure f).paletteShowItem = t.paletteShowItem := by
    funext n
    rw [paletteShowItem, paletteShowItem, filterMap_childNodes_configure hpalette]
  rw [layout, layout, palettes, palettes, hitems, hinside, List.filterMap_flatMap,
    List.filterMap_flatMap]
  congr 1
  · apply congrArg ShowItem.text
    apply flatMap_tabNodes_configure
    intro n
    rw [itemsOfTab, itemsOfTab, Layout.tabItem, Layout.tabItem, (hnode n).1, (hnode n).2.1]
  · apply congrArg Entries.ofList
    have hview : ∀ n : Node,
        (n.configure f).palette?.map (fun name => (name, t.paletteShowItem (n.configure f))) =
          n.palette?.map fun name => (name, t.paletteShowItem n) := by
      intro n
      rw [paletteShowItem, paletteShowItem, (hnode n).1, (hnode n).2.2]
    rw [funext fun tab : Node => filterMap_childNodes_configure hview tab.id]
    apply flatMap_tabNodes_configure
    intro n
    rw [(hnode n).1]

end Layout

end FormTree

namespace TableType

variable {ty : TableType} {lookup : String → Option Fields} {id : String}

/-- What a type shows of a field that was taken anew from the base. -/
theorem config?_refresh (hm : ty.memory.get? id = some previous)
    (hc : (ty.tree.field? id).bind Node.config? = some current) :
    ((ty.refresh lookup id).1.tree.field? id).bind Node.config? =
      some (merge ((lookup id).getD []) (diff (previous.getD []) current)) := by
  rcases ty.refresh_cases lookup id with
    ⟨hnone, _⟩ | ⟨previous', hm', ⟨hnone, _⟩ | ⟨current', hc', he⟩⟩
  · cases hnone.symm.trans hm
  · cases hnone.symm.trans hc
  · cases hm.symm.trans hm'
    cases hc.symm.trans hc'
    rw [he]
    dsimp only
    rw [FormTree.field?_configure, if_pos rfl, hc, Option.map_some]

end TableType

namespace Table

variable {start table : Table} {id key : String} {ty : TableType}

theorem get?_invalidate (table : Table) (id key : String) : (table.invalidate id).1.types.get? key =
    (table.types.get? key).map fun ty => (ty.refresh table.baseConfig? id).1 := by
  have hmap := Entries.get?_map table.types (fun ty => (ty.refresh table.baseConfig? id).1) key
  rw [invalidate_eq]
  exact hmap

theorem kept_invalidate (table : Table) (id : String) : Kept table (table.invalidate id).1 :=
  (Kept.refl table).run (.invalidate id)

theorem AlikeType.refl (h : table.Tidy) (ht : table.types.get? key = some ty) :
    table.AlikeType ty ty :=
  ⟨rfl, fun keys => .refl (h.proper_all ht (h.proper_compiled keys))⟩

/-- What was changed of an equal base is, taken over to the base, overridden as it was. -/
theorem rel_override?_refresh (h : table.Tidy) {previous current known : Fields}
    (hp : Proper (.object previous)) (hc : Proper (.object current))
    (heq : equal (.object previous) (.object ((table.baseConfig? id).getD [])) = true)
    (hknown : (table.compiled keys).columns.get? id = some known) :
    Option.Rel (fun x y => equal (.object x) (.object y) = true)
      (override? known (merge ((table.baseConfig? id).getD []) (diff previous current)))
      (override? known current) := by
  have hk : Proper (.object known) := (proper_ofFields_iff.1 (h.proper_compiled keys)).2 id known hknown
  cases hb : table.baseConfig? id with
  | none =>
    rw [hb, Option.getD_none] at heq
    rw [Option.getD_none, merge_diff_of_empty hc.distinct heq]
    exact rel_override? hk hc hc (equal_refl (proper_diff known hc))
  | some config =>
    cases hknown.symm.trans (h.get?_compiled keys hb)
    rw [hb, Option.getD_some] at heq
    exact rel_override?_rebase hp hk hc heq

/-- Forgetting a field that is in the base as it was remembered makes no difference. -/
theorem alikeType_refresh (h : table.AllTidy) (ht : table.types.get? key = some ty)
    (hbase : ∀ previous, ty.memory.get? id = some previous →
      equal (.object (previous.getD [])) (.object ((table.baseConfig? id).getD [])) = true) :
    table.AlikeType ty (ty.refresh table.baseConfig? id).1 := by
  have hrefl := AlikeType.refl h.toTidy ht
  rcases ty.refresh_cases table.baseConfig? id with
    ⟨_, he⟩ | ⟨previous, hm, ⟨_, he⟩ | ⟨current, hc, he⟩⟩ <;> rw [he]
  · exact hrefl
  · exact ⟨hrefl.palettes, hrefl.columns⟩
  · have htidy := h.all ht
    have hcurrent := htidy.toTidy.shown hc
    have heq := hbase previous hm
    obtain ⟨loose, hj⟩ := htidy.woven
    have hj' := hj.update id (Node.keepsLinks_configure fun _ =>
      merge ((table.baseConfig? id).getD []) (diff (previous.getD []) current))
    constructor
    case palettes =>
      dsimp only
      rw [FormTree.layout_configure]
    case columns =>
      intro keys
      have hproper := h.proper_all ht (h.proper_compiled keys)
      constructor
      case fresh =>
        intro x hnone
        rw [TableType.get?_allColumns hj', FormTree.field?_configure, TableType.get?_allColumns hj]
        split
        · next hx =>
          rw [hx] at hnone ⊢
          cases hb : table.baseConfig? id with
          | none =>
            rw [hb, Option.getD_none] at heq
            rw [hc, Option.map_some, Option.getD_none, merge_diff_of_empty hcurrent.distinct heq]
          | some config => cases hnone.symm.trans (h.get?_compiled keys hb)
        · rfl
      case known =>
        intro x known hknown
        by_cases hx : x = id
        · rw [hx] at hknown ⊢
          rw [TableType.get?_allColumns hj', FormTree.field?_configure, if_pos rfl,
            TableType.get?_allColumns hj, hc, Option.map_some, Option.some_or, Option.some_or,
            Option.bind_some, Option.bind_some]
          exact rel_override?_refresh h.toTidy (htidy.proper_memory hm) hcurrent heq hknown
        · apply rel_override?_of_eq hproper
          rw [TableType.get?_allColumns hj', FormTree.field?_configure, if_neg hx,
            TableType.get?_allColumns hj]

theorem alike_invalidate (h : table.AllTidy) (hbase : ∀ key ty previous,
      table.types.get? key = some ty → ty.memory.get? id = some previous →
      equal (.object (previous.getD [])) (.object ((table.baseConfig? id).getD [])) = true) :
    table.Alike (table.invalidate id).1 := by
  constructor
  case toKept => exact kept_invalidate table id
  case base => rw [invalidate_eq]
  case columns => rw [invalidate_eq]
  case types =>
    intro key
    rw [get?_invalidate]
    cases ht : table.types.get? key with
    | none => exact .none
    | some ty => exact .some (alikeType_refresh h ht fun previous => hbase key ty previous ht)

/-- A field with the configuration of the base needs no override. -/
theorem overridesIn_of_base (h : table.Tidy) (ht : table.types.get? key = some ty)
    (hc : (ty.tree.field? id).bind Node.config? = some ((table.baseConfig? id).getD [])) :
    (overridesIn table.compile key).get? id = none := by
  obtain ⟨loose, hj⟩ := (h.types ht).woven
  rw [h.overridesIn_compile ht, Entries.get?_map,
    ((h.stage_before key).reduces h.toGrounded ty).get?_overrides,
    TableType.get?_allColumns hj, hc, Option.some_or]
  cases hk : (table.before key).columns.get? id with
  | none => rfl
  | some known =>
    rw [Option.bind_some, Option.bind_some]
    cases hb : table.baseConfig? id with
    | none => exact congrArg (Option.map Value.object) (if_pos (.inr rfl))
    | some config =>
      cases hk.symm.trans (h.get?_compiled _ hb)
      rw [Option.getD_some, override?_self (h.lookup hb)]
      rfl

/-- What forgetting a field comes to: the types that remember and show it have it merged from what they
remembered, what they made of it, and what the base has. The compiled document is equal where the base
is as it was remembered, and a type that had changed nothing has no override. -/
structure Invalidated (table : Table) (id : String) (table' : Table) : Prop where
  merged {key : String} {ty : TableType} {previous : Option Fields} {current : Fields} :
    table.types.get? key = some ty → ty.memory.get? id = some previous →
    (ty.tree.field? id).bind Node.config? = some current →
    ∃ ty' config, table'.types.get? key = some ty' ∧
      (ty'.tree.field? id).bind Node.config? = some config ∧
      ThreeWay (previous.getD []) current ((table.baseConfig? id).getD []) config
  unchanged : (∀ key ty previous, table.types.get? key = some ty →
      ty.memory.get? id = some previous →
      equal (.object (previous.getD [])) (.object ((table.baseConfig? id).getD [])) = true) →
    equal table'.compile table.compile = true
  plain {key : String} {ty : TableType} {previous : Option Fields} {current : Fields} :
    table.types.get? key = some ty → ty.memory.get? id = some previous →
    (ty.tree.field? id).bind Node.config? = some current →
    looseEq (.object (previous.getD [])) (.object current) = true →
    (overridesIn table'.compile key).get? id = none

theorem AllTidy.invalidated (h : table.AllTidy) (id : String) :
    Invalidated table id (table.invalidate id).1 := by
  have htidy' : (table.invalidate id).1.AllTidy := h.run (e := .invalidate id) trivial
  have htype {key : String} {ty : TableType} (ht : table.types.get? key = some ty) :
      (table.invalidate id).1.types.get? key = some (ty.refresh table.baseConfig? id).1 := by
    rw [get?_invalidate, ht, Option.map_some]
  constructor
  case merged =>
    intro key ty previous current ht hm hc
    have hthree := threeWay ((h.types ht).shown hc) (previous.getD [])
      ((table.baseConfig? id).getD [])
    exact ⟨_, _, htype ht, TableType.config?_refresh hm hc, hthree⟩
  case unchanged =>
    intro hbase
    apply (alike_invalidate h hbase).equal_compile_of_layouts h.toTidy htidy'.toTidy
    intro key ty ty' ht ht'
    rw [htype ht, Option.some_inj] at ht'
    rw [← ht']
    rcases ty.refresh_cases table.baseConfig? id with ⟨_, he⟩ | ⟨_, _, ⟨_, he⟩ | ⟨_, _, he⟩⟩ <;>
      rw [he]
    exact congrArg Layout.showItem (FormTree.layout_configure _ _ _)
  case plain =>
    intro key ty previous current ht hm hc hloose
    have hnone := diff_of_looseEq ((h.all ht).proper_memory hm) ((h.types ht).shown hc) hloose
    have hlookup : (table.invalidate id).1.baseConfig? id = table.baseConfig? id := by
      rw [invalidate_eq]
      rfl
    apply overridesIn_of_base htidy'.toTidy (htype ht)
    rw [TableType.config?_refresh hm hc, hnone, merge, hlookup]

/-- Forgetting a field of a table that was loaded and edited. -/
theorem invalidated_runAll {name : String} {value : Value} {options : Options} (hv : value.Proper)
    (hread : Table.read name value options = .ok start) {edits : List TableEdit}
    (he : ∀ e ∈ edits, e.Tidy) (id : String) :
    Invalidated (start.runAll edits) id ((start.runAll edits).invalidate id).1 :=
  ((allTidy_of_read hv hread).runAll he).invalidated id

/-- A document with a field that a type overrides in part. -/
def partlyOverridden : Value := .object [
  ("columns", .object [("title", .object [("label", .string "T"),
    ("config", .object [("max", .number (.integer 50)), ("size", .number (.integer 10))])])]),
  ("types", .object [
    ("0", .object [("showitem", .string "title")]),
    ("1", .object [("showitem", .string "title"), ("columnsOverrides", .object [
      ("title", .object [("config", .object [("max", .number (.integer 80))])])])])])]

/-- An edit of the base that is written over another part of the field. -/
def resized : TableEdit :=
  .base (.node "title" [.merge [("config", .object [("size", .number (.integer 30))])]])

theorem invalidated_of_partlyOverridden : ∃ start : Table,
    Table.read "pages" partlyOverridden ⟨"general", none, true⟩ = .ok start ∧
    (((((start.runAll [resized]).invalidate "title").1.types.get? "1").bind fun ty =>
      (ty.tree.field? "title").bind Node.config?).any fun config =>
        equal (.object config) (.object [("label", .string "T"), ("config", .object
          [("max", .number (.integer 80)), ("size", .number (.integer 30))])])) = true ∧
    Invalidated (start.runAll [resized]) "title" ((start.runAll [resized]).invalidate "title").1 := by
  obtain ⟨start, hread, h⟩ := exists_of_check
    (x := Table.read "pages" partlyOverridden ⟨"general", none, true⟩)
    (p := fun start : Table =>
      ((((start.runAll [resized]).invalidate "title").1.types.get? "1").bind fun ty =>
        (ty.tree.field? "title").bind Node.config?).any fun config =>
          equal (.object config) (.object [("label", .string "T"), ("config", .object
            [("max", .number (.integer 80)), ("size", .number (.integer 30))])]))
    (by decide +kernel)
  have hproper : partlyOverridden.Proper := by
    simp [partlyOverridden, proper_object_iff, Entries.Distinct, Entries.names, Proper.string,
      Proper.number]
  apply Exists.intro start
  apply And.intro hread
  apply And.intro h
  apply invalidated_runAll hproper hread
  intro e he
  rw [List.mem_singleton.1 he]
  intro e he
  rw [List.mem_singleton.1 he]
  simp [NodeEdit.Tidy, proper_object_iff, Entries.Distinct, Entries.names, Proper.number]

end Table

end FormLayout
