import FormLayout.Proofs.Palette.Apart
import FormLayout.Proofs.Table.Woven
/-!
Tables in which all configurations and documents are proper. They are when they were read of a proper
document, they stay so as long as proper configurations are put in, and they compile to proper
documents.
-/

namespace FormLayout
set_option autoImplicit true
open Palette Value

/-- The configurations that the edit puts in are proper. -/
def NodeEdit.Tidy : NodeEdit → Prop
  | .set fields | .merge fields => Proper (.object fields)
  | _ => True

def TreeEdit.Tidy : TreeEdit → Prop
  | .tab _ edits | .addTab edits | .palette _ edits | .lineBreak _ edits | .node _ edits =>
    ∀ e ∈ edits, e.Tidy
  | .field _ config edits => Proper (.object config) ∧ ∀ e ∈ edits, e.Tidy
  | .setLabel _ _ | .move _ _ | .tryMove _ _ | .remove _ | .ensureTab | .reset => True

def TableEdit.Tidy : TableEdit → Prop
  | .base e | .type _ e => e.Tidy
  | .field _ _ edits => ∀ e ∈ edits, e.Tidy
  | .resolve _ _ | .invalidate _ | .removeField _ _ => True

namespace Value

theorem Proper.extend {fields more : Fields} (h : Proper (.object fields))
    (hm : Proper (.object more)) : Proper (.object (fields.extend more)) := by
  rw [proper_object_iff] at hm
  obtain ⟨-, hm⟩ := hm
  induction more generalizing fields with
  | nil => exact h
  | cons e rest ih =>
    rw [List.forall_mem_cons] at hm
    exact ih (h.put e.1 hm.1) hm.2

theorem Proper.eraseAll {fields : Fields} (h : Proper (.object fields)) (names : List String) :
    Proper (.object (names.foldl Entries.erase fields)) := by
  induction names generalizing fields with
  | nil => exact h
  | cons name rest ih => exact ih (h.erase name)

theorem Proper.eraseColumn {columns : Columns} (h : Proper (.ofFields columns)) (id : String) :
    Proper (.ofFields (columns.erase id)) := by
  rw [proper_ofFields_iff] at h ⊢
  apply And.intro (h.1.erase id)
  intro name fields hname
  rw [Entries.get?_erase] at hname
  split at hname
  · cases hname
  · exact h.2 name fields hname

theorem proper_getD {known : Option Fields} (h : ∀ fields, known = some fields →
    Proper (.object fields)) : Proper (.object (known.getD [])) := by
  cases known with
  | none => exact proper_empty
  | some fields => exact h fields rfl

end Value

namespace Node

variable {n : Node}

/-- The configuration of the node is proper, if it has one. -/
def Tidy (n : Node) : Prop := ∀ config, n.content = .field config → Proper (.object config)

theorem Tidy.configure (h : n.Tidy) {f : Fields → Fields}
    (hf : ∀ config, Proper (.object config) → Proper (.object (f config))) :
    (n.configure f).Tidy := by
  rw [Node.configure]
  split
  · next config hc =>
    intro changed hchanged
    cases hchanged
    exact hf config (h config hc)
  · exact h

theorem Tidy.setLabel (h : n.Tidy) (label : Option String) : (n.setLabel label).Tidy := by
  obtain ⟨slots, he⟩ := n.setLabel_eq label
  rw [he]
  exact h

theorem lasting_tidy (label : String) : Lasting label Tidy where
  place _ _ h := h
  tab _ := fun _ => (nomatch ·)
  lineBreak _ := fun _ => (nomatch ·)
  label h := h.setLabel _

end Node

theorem NodeEdit.Tidy.keeps {e : NodeEdit} (h : e.Tidy) : e.Keeps Node.Tidy := by
  cases e with
  | label text => exact fun n hn => hn.setLabel _
  | clearLabel => exact fun n hn => hn.setLabel _
  | slots slots => exact fun n hn => hn
  | set fields => exact fun n hn => hn.configure fun config hc => hc.extend h
  | unset names => exact fun n hn => hn.configure fun config hc => hc.eraseAll names
  | merge fields => exact fun n hn => hn.configure fun config hc => Column.proper_merge hc h
  | move _ => trivial
  | remove => trivial

theorem TreeEdit.Tidy.keeps {e : TreeEdit} (h : e.Tidy) : e.Keeps Node.Tidy := by
  have hkeeps {edits : List NodeEdit} (he : ∀ e ∈ edits, e.Tidy) :
      ∀ e ∈ edits, e.Keeps Node.Tidy := fun e hm => (he e hm).keeps
  cases e with
  | tab id edits => exact hkeeps h
  | addTab edits => exact hkeeps h
  | lineBreak position edits => exact hkeeps h
  | node id edits => exact hkeeps h
  | palette name edits => exact ⟨fun _ => (nomatch ·), hkeeps h⟩
  | field id config edits =>
    apply And.intro _ (hkeeps h.2)
    intro c hc
    cases hc
    exact h.1
  | setLabel id label => exact fun n hn => hn.setLabel label
  | _ => trivial

theorem FormTree.Holds.dropField {t : FormTree} (h : t.Holds label P) (hP : Node.Lasting label P)
    (id : String) : (t.dropField id).1.Holds label P := by
  have hremove := h.removeAnswering hP id
  cases hf : t.field? id with
  | none =>
    rw [dropField_of_none hf]
    exact h
  | some n =>
    obtain ⟨u, removed, hu, he⟩ := dropField_of_some (Option.isSome_of_eq_some hf)
    rw [FormTree.removeAnswering, hu] at hremove
    rw [he]
    exact hremove

theorem FormTree.Holds.shown {t : FormTree} (h : t.Holds label Node.Tidy) {id : String}
    (hc : (t.field? id).bind Node.config? = some config) : Proper (.object config) := by
  obtain ⟨n, hf, hc⟩ := Option.bind_eq_some_iff.1 hc
  exact h.nodes (Option.filter_eq_some_iff.1 hf).1 config (Node.config?_eq_some_iff.1 hc)

/-- All configurations of a type are proper, and so is its document. -/
structure TableType.Tidy (ty : TableType) : Prop where
  woven : ty.Woven
  tree : ∃ label, ty.tree.Holds label Node.Tidy
  columns : Proper (.ofFields ty.columns)
  document : Proper (.object ty.document)

/-- Besides, what the type remembers of the base is proper. -/
structure TableType.AllTidy (ty : TableType) : Prop extends TableType.Tidy ty where
  memory {id : String} {known : Fields} : ty.memory.get? id = some (some known) →
    Proper (.object known)

namespace TableType

variable {ty : TableType} {lookup : String → Option Fields}

theorem Tidy.shown (h : ty.Tidy) {id : String}
    (hc : (ty.tree.field? id).bind Node.config? = some config) : Proper (.object config) := by
  obtain ⟨label, hh⟩ := h.tree
  exact hh.shown hc

theorem Tidy.edit (h : ty.Tidy) {e : TreeEdit} (he : e.Tidy) : (ty.edit e).1.Tidy := by
  obtain ⟨label, hh⟩ := h.tree
  exact ⟨h.woven.edit e, ⟨label, hh.run (Node.lasting_tidy label) he.keeps⟩, h.columns, h.document⟩

theorem Tidy.dropField (h : ty.Tidy) (id : String) : (ty.dropField id).1.Tidy := by
  obtain ⟨label, hh⟩ := h.tree
  exact ⟨h.woven.dropField id, ⟨label, hh.dropField (Node.lasting_tidy label) id⟩,
    h.columns.eraseColumn id, h.document⟩

/-- The configurations of a type are proper, whatever proper columns are beneath. -/
theorem Tidy.proper_allColumns (h : ty.Tidy) {base : Columns} (hb : Proper (.ofFields base)) :
    Proper (.ofFields (ty.allColumns base)) := by
  obtain ⟨loose, hj⟩ := h.woven
  have hcolumns := proper_ofFields_iff.1 h.columns
  apply proper_ofFields_iff.2
  apply And.intro (distinct_allColumns ty base)
  intro id config hid
  rw [get?_allColumns hj, Option.or_eq_some_iff] at hid
  rcases hid with hid | ⟨_, hid⟩
  · exact h.shown hid
  · obtain ⟨own, hown, rfl⟩ := Option.map_eq_some_iff.1 hid
    exact Column.proper_merge (proper_getD ((proper_ofFields_iff.1 hb).2 id)) (hcolumns.2 id own hown)

theorem AllTidy.proper_memory (h : ty.AllTidy) {id : String} {previous : Option Fields}
    (hm : ty.memory.get? id = some previous) : Proper (.object (previous.getD [])) := by
  apply proper_getD
  intro known hknown
  rw [hknown] at hm
  exact h.memory hm

namespace AllTidy

theorem edit (h : ty.AllTidy) {e : TreeEdit} (he : e.Tidy) : (ty.edit e).1.AllTidy :=
  ⟨h.toTidy.edit he, h.memory⟩

theorem withMemory (h : ty.AllTidy) {memory : Memory} (hm : ∀ id known,
      memory.get? id = some (some known) → Proper (.object known)) :
    { ty with memory }.AllTidy :=
  ⟨⟨h.woven, h.tree, h.columns, h.document⟩, fun {id known} => hm id known⟩

theorem withTree (h : ty.AllTidy) {tree : FormTree} (hw : { ty with tree }.Woven)
    (ht : ∃ label, tree.Holds label Node.Tidy) : { ty with tree }.AllTidy :=
  ⟨⟨hw, ht, h.columns, h.document⟩, h.memory⟩

theorem forget (h : ty.AllTidy) (id : String) :
    { ty with memory := ty.memory.erase id }.AllTidy := by
  apply h.withMemory
  intro x known hx
  rw [Entries.get?_erase] at hx
  split at hx
  · cases hx
  · exact h.memory hx

theorem remember (h : ty.AllTidy) (hl : ∀ x known, lookup x = some known → Proper (.object known))
    (id : String) : { ty with memory := ty.memory.put id (lookup id) }.AllTidy := by
  apply h.withMemory
  intro x known hx
  rw [Entries.get?_put] at hx
  split at hx
  · exact hl id known (Option.some.inj hx)
  · exact h.memory hx

/-- What a type answers about the base is proper, and so is what it remembers then. -/
theorem resolve (h : ty.AllTidy) (hl : ∀ x known, lookup x = some known → Proper (.object known))
    (id : String) : (ty.resolve lookup id).1.AllTidy ∧
      ∀ known, (ty.resolve lookup id).2 = some known → Proper (.object known) := by
  rw [TableType.resolve, Memory.resolve]
  cases hm : ty.memory.get? id with
  | some answer =>
    constructor
    · exact h
    · intro known hknown
      apply h.memory
      rw [hm]
      exact congrArg some hknown
  | none => exact ⟨h.remember hl id, hl id⟩

theorem field (h : ty.AllTidy) (hl : ∀ x known, lookup x = some known → Proper (.object known))
    (id : String) {edits : List NodeEdit} (he : ∀ e ∈ edits, e.Tidy) :
    (ty.field lookup id edits).1.AllTidy := by
  rw [TableType.field]
  split
  · exact h.edit ⟨proper_empty, he⟩
  · obtain ⟨hresolved, hanswer⟩ := h.resolve hl id
    apply hresolved.edit
    apply And.intro _ he
    apply Column.proper_merge (proper_getD hanswer)
    exact proper_getD ((proper_ofFields_iff.1 hresolved.columns).2 id)

theorem refresh (h : ty.AllTidy) (hl : ∀ x known, lookup x = some known → Proper (.object known))
    (id : String) : (ty.refresh lookup id).1.AllTidy := by
  have hwoven := h.woven.refresh lookup id
  rcases ty.refresh_cases lookup id with ⟨_, he⟩ | ⟨previous, _, ⟨_, he⟩ | ⟨current, hc, he⟩⟩ <;>
    rw [he] at hwoven ⊢
  · exact h
  · exact h.forget id
  · obtain ⟨label, hh⟩ := h.tree
    apply ((h.forget id).remember hl id).withTree hwoven
    apply Exists.intro label
    apply hh.update
    intro n hn
    apply hn.configure
    intro config _
    exact Column.proper_merge (proper_getD (hl id)) (Column.proper_diff _ (h.shown hc))

theorem dropField (h : ty.AllTidy) (id : String) : (ty.dropField id).1.AllTidy :=
  ⟨h.toTidy.dropField id, (h.forget id).memory⟩

end AllTidy

end TableType

/-- Fields that are looked up are remembered as they are. -/
theorem Memory.get?_resolveAll {lookup : String → Option Fields} {ids : List String} {m : Memory}
    {id : String} {known : Option Fields} (h : (m.resolveAll lookup ids).get? id = some known) :
    m.get? id = some known ∨ known = lookup id := by
  induction ids generalizing m with
  | nil => exact .inl h
  | cons x rest ih =>
    rcases ih h with h | h
    · dsimp only at h
      rw [Memory.resolve] at h
      split at h
      · exact .inl h
      · rw [Entries.get?_put] at h
        split at h
        · next hx =>
          rw [hx]
          exact .inr (Option.some.inj h).symm
        · exact .inl h
    · exact .inr h

namespace Table

variable {start table table' : Table}

/-- The columns, palettes and documents of a table are proper, and so are its types. -/
structure Tidy (table : Table) : Prop extends Grounded table where
  base : ∃ label, table.base.tree.Holds label Node.Tidy
  base_document : Proper (.object table.base.document)
  types {key : String} {ty : TableType} : table.types.get? key = some ty → ty.Tidy
  columns : Proper (.ofFields table.columns)
  palettes : table.palettes.Distinct
  document : Proper (.object table.document)
  palette_documents : Proper (.object table.paletteDocuments)

/-- Besides, what the types remember of the base is proper. -/
structure AllTidy (table : Table) : Prop extends Tidy table where
  all {key : String} {ty : TableType} : table.types.get? key = some ty → ty.AllTidy

theorem Tidy.lookup (h : table.Tidy) {id : String} {known : Fields}
    (hk : table.baseConfig? id = some known) : Proper (.object known) := by
  rw [baseConfig?, FormLayout.baseConfig?] at hk
  split at hk
  · next config hc =>
    obtain ⟨label, hh⟩ := h.base
    rw [← Option.some.inj hk]
    exact hh.shown hc
  · exact (proper_ofFields_iff.1 h.columns).2 id known hk

namespace AllTidy

theorem of_kept (h : table.AllTidy) (hk : Kept table table') (hw : table'.base.Woven)
    (hb : ∃ label, table'.base.tree.Holds label Node.Tidy) (hc : Proper (.ofFields table'.columns))
    (ht : ∀ key ty, table'.types.get? key = some ty → ty.AllTidy) : table'.AllTidy := by
  constructor
  case toTidy =>
    constructor
    case toGrounded => exact ⟨hk.ordered h.toOrdered, hw, (proper_ofFields_iff.1 hc).1⟩
    case base => exact hb
    case base_document => exact hk.base_document ▸ h.base_document
    case types => exact fun {key ty} hty => (ht key ty hty).toTidy
    case columns => exact hc
    case palettes => exact hk.palettes ▸ h.palettes
    case document => exact hk.document ▸ h.document
    case palette_documents => exact hk.palette_documents ▸ h.palette_documents
  case all => exact fun {key ty} hty => ht key ty hty

theorem onType (h : table.AllTidy) {key : String} {f : TableType → TableType × α}
    (hf : ∀ ty, ty.AllTidy → (f ty).1.AllTidy) (hd : ∀ ty, (f ty).1.document = ty.document) :
    (((table.onType? key f).map Prod.fst).getD table).AllTidy := by
  have hkept : Kept table (((table.onType? key f).map Prod.fst).getD table) :=
    (Kept.refl table).onType hd
  rw [onType?] at hkept ⊢
  cases ht : table.types.get? key with
  | none => exact h
  | some ty =>
    rw [ht] at hkept
    apply h.of_kept hkept h.joined h.base h.columns
    intro x u hu
    change (table.types.put key (f ty).1).get? x = some u at hu
    rw [Entries.get?_put] at hu
    split at hu
    · rw [← Option.some.inj hu]
      exact hf ty (h.all ht)
    · exact h.all hu

theorem run (h : table.AllTidy) {e : TableEdit} (he : e.Tidy) : (table.run e).AllTidy := by
  have hkept := (Kept.refl table).run e
  have hwoven : table.base.Woven := h.joined
  obtain ⟨label, hbase⟩ := h.base
  have hlasting := Node.lasting_tidy label
  have hmap {f : TableType → TableType} (hf : ∀ ty, ty.AllTidy → (f ty).AllTidy) : ∀ key u,
      Entries.get? (table.types.map fun e : String × TableType => (e.1, f e.2)) key = some u →
        u.AllTidy := by
    intro key u hu
    rw [Entries.get?_map] at hu
    obtain ⟨ty, hty, rfl⟩ := Option.map_eq_some_iff.1 hu
    exact hf ty (h.all hty)
  cases e with
  | base e =>
    exact h.of_kept hkept (hwoven.edit e) ⟨label, hbase.run hlasting he.keeps⟩ h.columns
      fun _ _ => h.all
  | type key e => exact h.onType (fun ty hty => hty.edit he) fun _ => rfl
  | field key id edits =>
    exact h.onType (fun ty hty => hty.field (fun _ _ => h.lookup) id he) fun ty =>
      Kept.document_field ty _ _ _
  | resolve key id =>
    exact h.onType (fun ty hty => (hty.resolve (fun _ _ => h.lookup) id).1) fun _ => rfl
  | invalidate id =>
    rw [Table.run, invalidate_eq] at hkept ⊢
    exact h.of_kept hkept hwoven h.base h.columns
      (hmap fun ty hty => hty.refresh (fun _ _ => h.lookup) id)
  | removeField definitions id =>
    rw [Table.run, removeField_eq] at hkept ⊢
    exact h.of_kept hkept (hwoven.dropField id) ⟨label, hbase.dropField hlasting id⟩
      (h.columns.eraseColumn id) (hmap fun ty hty => hty.dropField id)

theorem runAll (h : start.AllTidy) {edits : List TableEdit} (he : ∀ e ∈ edits, e.Tidy) :
    (start.runAll edits).AllTidy :=
  runAll_induction h fun _ e hm h => h.run (he e hm)

end AllTidy

namespace Tidy

variable {key : String} {ty : TableType}

theorem proper_all (h : table.Tidy) (ht : table.types.get? key = some ty) {base : Columns}
    (hb : Proper (.ofFields base)) : Proper (.ofFields (ty.allColumns base)) :=
  (h.types ht).proper_allColumns hb

theorem proper_compiled (h : table.Tidy) (keys : List String) :
    Proper (.ofFields (table.compiled keys).columns) := by
  induction keys using List.reverseRecOn with
  | nil =>
    apply proper_ofFields_iff.2
    apply And.intro (distinct_baseColumns h.distinct)
    intro id config hid
    obtain ⟨loose, hj⟩ := h.joined
    have hbase : table.baseColumns.get? id = some config := hid
    rw [get?_baseColumns hj] at hbase
    exact h.lookup hbase
  | append_singleton init key ih =>
    rw [compiled_concat]
    cases ht : table.types.get? key with
    | none =>
      obtain ⟨types, he⟩ := compileType_skip (table.compiled init) ht
      rw [he]
      exact ih
    | some ty =>
      rw [compileType_derived _ (h.ne_base ht) ht]
      exact (((h.stage init).reduces h.toGrounded ty).proper ih (h.proper_all ht ih)).1

theorem proper_reduction (h : table.Tidy) (ht : table.types.get? key = some ty)
    (keys : List String) :
    Proper (.ofFields (table.reductionOf (table.compiled keys) ty).overrides) :=
  (((h.stage keys).reduces h.toGrounded ty).proper (h.proper_compiled keys)
    (h.proper_all ht (h.proper_compiled keys))).2

theorem distinct_compiledPalettes (h : table.Tidy) : table.compileTypes.palettes.Distinct := by
  apply compiled_induction h.order (P := fun _ c => c.palettes.Distinct)
  · exact h.palettes.extend _
  · intro keys key _ _ _ hd
    cases ht : table.types.get? key with
    | none =>
      obtain ⟨types, he⟩ := compileType_skip (table.compiled keys) ht
      rw [he]
      exact hd
    | some ty =>
      rw [compileType_derived _ (h.ne_base ht) ht]
      exact distinct_addAll hd _

theorem proper_compiledPalettes (h : table.Tidy) : Proper (.object table.compiledPalettes) := by
  apply Proper.object
  · rw [Entries.Distinct, names_compiledPalettes]
    exact h.distinct_compiledPalettes
  · intro e he
    obtain ⟨a, _, rfl⟩ := List.mem_map.1 he
    exact (proper_fields fun _ hv => h.palette_documents.get? hv).put _ (.string _)

theorem proper_compiledType? (h : table.Tidy) (hv : table.compiledType? key = some v) :
    v.Proper := by
  rw [compiledType?] at hv
  split at hv
  · rw [← Option.some.inj hv]
    exact proper_typeDocument h.base_document _ fun _ hw => by cases hw
  · obtain ⟨ty, ht, rfl⟩ := Option.map_eq_some_iff.1 hv
    apply proper_typeDocument (h.types ht).document
    intro overrides hw
    rw [← Option.some.inj hw]
    exact h.proper_reduction ht _

theorem proper_types (h : table.Tidy) : Proper (.object table.compileTypes.types) := by
  apply Proper.object h.distinct_types
  intro e he
  have hget := Entries.get?_of_mem h.distinct_types he
  rw [get?_types_compileTypes h.order] at hget
  split at hget
  · exact h.proper_compiledType? hget
  · cases hget

theorem proper_compile (h : table.Tidy) : table.compile.Proper := by
  rw [compile_eq]
  exact proper_withParts h.document (h.proper_compiled table.typeOrder) h.proper_compiledPalettes
    h.proper_types

end Tidy

namespace Parsed

variable {key : String} {ty : TableType}

/-- Fields that were read are proper as the columns around them are. -/
theorem tidy_tree {tree : FormTree} {columns : Columns} {around : Layout.Surroundings}
    {label : String} (h : Layout.Reading.Sound around label ⟨tree, columns, none, []⟩)
    (hc : ∀ id config, around.config? columns id = some config → Proper (.object config)) :
    tree.Holds label Node.Tidy := by
  constructor
  case label_eq => exact h.holds.label_eq
  case nodes =>
    intro id n hn config hconfig
    exact hc n.id config ((h.holds.nodes hn).2.1 config hconfig)

theorem tidy (h : table.Parsed) : table.Tidy := by
  have hcolumns := (proper_ofFields_iff.1 h.proper_columns).2
  constructor
  case toGrounded => exact h.grounded
  case base => exact ⟨_, tidy_tree h.base_read hcolumns⟩
  case base_document => exact h.proper_type (if_pos rfl)
  case types =>
    intro key ty ht
    constructor
    case woven => exact ⟨_, (h.type_read ht).linked.joined⟩
    case tree =>
      apply Exists.intro
      apply tidy_tree (h.type_read ht)
      intro id config hk
      have hown := (proper_ofFields_iff.1 (h.proper_overrides ht)).2
      rw [Layout.Surroundings.config?] at hk
      dsimp only at hk
      split at hk
      · next hx hy =>
        rw [← Option.some.inj hk]
        exact Column.proper_merge (hcolumns id _ hx) (hown id _ hy)
      · next hx _ =>
        rw [← Option.some.inj hk]
        exact hcolumns id _ hx
      · exact hown id config hk
    case columns => exact h.proper_overrides ht
    case document => exact h.proper_type ((type?_of_ne (h.ne_base ht)).trans ht)
  case columns => exact h.proper_columns
  case palettes =>
    rw [h.palettes_eq, Entries.Distinct, palettesOf, Entries.names, List.map_map]
    exact h.proper_palettes.distinct
  case document => exact h.proper_document
  case palette_documents => exact h.proper_palettes

theorem proper_all (h : table.Parsed) (ht : table.types.get? key = some ty) {base : Columns}
    (hb : Proper (.ofFields base)) : Proper (.ofFields (ty.allColumns base)) :=
  h.tidy.proper_all ht hb

theorem proper_compiled (h : table.Parsed) (keys : List String) :
    Proper (.ofFields (table.compiled keys).columns) := h.tidy.proper_compiled keys

theorem proper_compile (h : table.Parsed) : table.compile.Proper := h.tidy.proper_compile

end Parsed

/-- A type that was read remembers the fields of the base as they are there. -/
theorem remembers_of_read {name : String} {value : Value} {options : Options} {key : String}
    {ty : TableType} (h : Table.read name value options = .ok table)
    (ht : table.types.get? key = some ty) {id : String} {known : Option Fields}
    (hm : ty.memory.get? id = some known) : known = table.baseConfig? id := by
  obtain ⟨source, hs, hf, types, hread, rfl⟩ := read_ok_iff.1 h
  obtain ⟨_, _, hread⟩ := Source.readType_of_readTypes hread ht
  obtain ⟨columns, _, _, he⟩ := readType_ok_iff.1 hread
  rw [he] at hm
  exact (Memory.get?_resolveAll hm).resolve_left (nomatch ·)

theorem allTidy_of_read {name : String} {value : Value} {options : Options} (hv : value.Proper)
    (h : Table.read name value options = .ok table) : table.AllTidy := by
  have htidy := (parsed_of_read hv h).tidy
  constructor
  case toTidy => exact htidy
  case all =>
    intro key ty ht
    apply TableType.AllTidy.mk (htidy.types ht)
    intro id known hm
    exact htidy.lookup (remembers_of_read h ht hm).symm

end Table

end FormLayout
