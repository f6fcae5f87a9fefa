import FormLayout.Proofs.Form.Runs
import FormLayout.Proofs.Table.Reading
import FormLayout.Table.Editing
/-!
Tables that are open for edits. Every tree of such a table has links that fit and plain texts, for
as long as plain texts are put in.
-/

namespace FormLayout
set_option autoImplicit true

def NodeEdit.Plain : NodeEdit → Prop
  | .label text => Text.Plain text
  | .slots new => ∀ s ∈ new, Text.Plain s
  | _ => True

/-- The texts that the edit puts in are plain, and no field gets the name of a special item. -/
def TreeEdit.Plain : TreeEdit → Prop
  | .tab _ edits | .addTab edits | .lineBreak _ edits | .node _ edits => ∀ e ∈ edits, e.Plain
  | .palette name edits => Text.Plain name ∧ ∀ e ∈ edits, e.Plain
  | .field id _ edits =>
    (Text.Plain id ∧ id ≠ "" ∧ SpecialToken.ofPart? id = none) ∧ ∀ e ∈ edits, e.Plain
  | .setLabel _ label => ∀ text, label = some text → Text.Plain text
  | .move _ _ | .tryMove _ _ | .remove _ | .ensureTab | .reset => True

theorem NodeEdit.Plain.keeps {e : NodeEdit} (h : e.Plain) : e.Keeps Node.Plain := by
  cases e with
  | label text => exact fun n hn => hn.setLabel fun _ he => Option.some.inj he ▸ h
  | clearLabel => exact fun n hn => hn.setLabel fun _ he => by cases he
  | slots slots => exact fun n hn => hn.withSlots h
  | set fields => exact fun n hn => hn.configure _
  | unset names => exact fun n hn => hn.configure _
  | merge fields => exact fun n hn => hn.configure _
  | move _ => trivial
  | remove => trivial

theorem TreeEdit.Plain.keeps {e : TreeEdit} (h : e.Plain) : e.Keeps Node.Plain := by
  cases e with
  | tab id edits => exact fun e he => (h e he).keeps
  | addTab edits => exact fun e he => (h e he).keeps
  | lineBreak position edits => exact fun e he => (h e he).keeps
  | node id edits => exact fun e he => (h e he).keeps
  | palette name edits =>
    refine ⟨⟨by simp [Node.fresh], by simp [Node.fresh], fun he => ?_⟩,
      fun e he => (h.2 e he).keeps⟩
    cases he
    exact h.1
  | field id config edits =>
    exact ⟨⟨by simp [Node.fresh], fun _ => h.1, by simp [Node.fresh]⟩,
      fun e he => (h.2 e he).keeps⟩
  | setLabel id label => exact fun n hn => hn.setLabel h
  | _ => trivial

/-- Forgetting a field does nothing where it is not remembered, and else the tree changes only where it
shows the field. -/
theorem TableType.refresh_cases (ty : TableType) (lookup : String → Option Fields) (id : String) :
    ty.memory.get? id = none ∧ ty.refresh lookup id = (ty, false) ∨
      ∃ previous, ty.memory.get? id = some previous ∧
        ((ty.tree.field? id).bind Node.config? = none ∧
            ty.refresh lookup id = ({ ty with memory := ty.memory.erase id }, true) ∨
          ∃ current, (ty.tree.field? id).bind Node.config? = some current ∧
            ty.refresh lookup id = ({ ty with
              memory := (ty.memory.erase id).put id (lookup id)
              tree := ty.tree.update id fun n => n.configure fun _ =>
                Column.merge ((lookup id).getD []) (Column.diff (previous.getD []) current) },
              true)) := by
  rw [TableType.refresh, Memory.take]
  cases hm : ty.memory.get? id with
  | none => exact .inl ⟨rfl, rfl⟩
  | some previous =>
    apply Or.inr
    apply Exists.intro previous
    apply And.intro rfl
    dsimp only
    cases hc : (ty.tree.field? id).bind Node.config? with
    | none => exact .inl ⟨rfl, rfl⟩
    | some current =>
      apply Or.inr
      apply Exists.intro current
      apply And.intro rfl
      dsimp only [TableType.resolve]
      rw [Memory.resolve, Entries.get?_erase_self]

namespace FormTree

theorem dropField_of_none {t : FormTree} {id : String} (h : t.field? id = none) :
    t.dropField id = (t, false) := by
  rw [dropField, h]
  rfl

theorem dropField_of_some {t : FormTree} {id : String} (h : (t.field? id).isSome = true) :
    ∃ u removed, t.remove id = .ok (u, removed) ∧ t.dropField id = (u, true) := by
  obtain ⟨n, hn⟩ := Option.isSome_iff_exists.1 h
  have hhas : t.has id = true := has_iff.2 ⟨n, (Option.filter_eq_some_iff.1 hn).1⟩
  rw [dropField, if_pos h, remove, if_pos hhas]
  exact ⟨_, _, rfl, rfl⟩

end FormTree

/-- A tree whose links fit and whose texts are plain. -/
structure FormTree.Writable (label : String) (t : FormTree) : Prop where
  joined : ∃ loose, t.Joined loose
  plain : t.Holds label Node.Plain

namespace FormTree.Writable

variable {t : FormTree} {label : String}

theorem run (h : t.Writable label) (hl : Text.Plain label) {e : TreeEdit} (he : e.Plain) :
    (t.run e).1.Writable label := by
  obtain ⟨loose, hjoined⟩ := h.joined
  obtain ⟨loose', hrun, _⟩ := hjoined.run e
  exact ⟨⟨loose', hrun⟩, h.plain.run (Node.lasting_plain hl) he.keeps⟩

theorem configure (h : t.Writable label) (id : String) (f : Fields → Fields) :
    (t.update id fun n => n.configure f).Writable label := by
  obtain ⟨loose, hjoined⟩ := h.joined
  exact ⟨⟨loose, hjoined.update id (Node.keepsLinks_configure f)⟩,
    h.plain.update id fun n hn => hn.configure f⟩

/-- Taking a field's configuration anew changes no more of a type's tree than that. -/
theorem refresh {ty : TableType} (h : ty.tree.Writable label) (lookup : String → Option Fields)
    (id : String) : (ty.refresh lookup id).1.tree.Writable label := by
  rcases ty.refresh_cases lookup id with ⟨_, he⟩ | ⟨_, _, ⟨_, he⟩ | ⟨_, _, he⟩⟩ <;> rw [he]
  · exact h
  · exact h
  · exact h.configure id _

theorem dropField (h : t.Writable label) (hl : Text.Plain label) (id : String) :
    (t.dropField id).1.Writable label := by
  cases hf : t.field? id with
  | none =>
    rw [dropField_of_none hf]
    exact h
  | some n =>
    obtain ⟨u, removed, hu, he⟩ := dropField_of_some (Option.isSome_of_eq_some hf)
    have hremove := h.run hl (e := .remove id) trivial
    rw [FormTree.run, removeAnswering, hu] at hremove
    rw [he]
    exact hremove

end FormTree.Writable

namespace Table

/-- The order of the types has every type once, and the base type is none of the derived ones. -/
structure Ordered (table : Table) : Prop where
  order : table.typeOrder.Nodup
  base_mem : table.base.key ∈ table.typeOrder
  base_free : table.types.get? table.base.key = none
  type_mem {key : String} {ty : TableType} : table.types.get? key = some ty →
    key ∈ table.typeOrder
  typed {key : String} : key ∈ table.typeOrder → ∃ ty, table.type? key = some ty

structure Sound (table : Table) : Prop extends table.Ordered where
  label : Text.Plain table.options.defaultTabLabel
  base : table.base.tree.Writable table.options.defaultTabLabel
  types {key : String} {ty : TableType} : table.types.get? key = some ty →
    ty.tree.Writable table.options.defaultTabLabel
  keys : ∀ key ∈ table.typeOrder, Text.Plain key

/-- Tables that were read and then edited. Only plain texts are put in, and the keys of the types
and the label of the default tab are plain as well. -/
inductive Opened : Table → Prop where
  | read {name : String} {value : Value} {options : Options} {table : Table} : value.Proper →
    Text.Plain options.defaultTabLabel → Table.read name value options = .ok table →
    (∀ key ∈ table.typeOrder, Text.Plain key) → Opened table
  | editBase {table : Table} {e : TreeEdit} : Opened table → e.Plain → Opened (table.editBase e).1
  | editType {table table' : Table} {key : String} {e : TreeEdit} {answer : Except Error Answer} :
    Opened table → e.Plain → table.onType? key (fun ty => ty.edit e) = some (table', answer) →
    Opened table'
  | field {table table' : Table} {key id : String} {edits : List NodeEdit}
    {answer : Except Error Answer} : Opened table → (TreeEdit.field id [] edits).Plain →
    table.onType? key (fun ty => ty.field table.baseConfig? id edits) = some (table', answer) →
    Opened table'
  | resolve {table table' : Table} {key id : String} {answer : Option Fields} : Opened table →
    table.onType? key (fun ty => ty.resolve table.baseConfig? id) = some (table', answer) →
    Opened table'
  | invalidate {table : Table} (id : String) : Opened table → Opened (table.invalidate id).1
  | removeField {table : Table} (definitions : Definitions) (id : String) : Opened table →
    Opened (table.removeField definitions id).1

theorem type?_of_ne {table : Table} {key : String} (hk : key ≠ table.base.key) :
    table.type? key = table.types.get? key := if_neg hk

/-- The order fits any table with types of the same keys. -/
theorem Ordered.congr {table table' : Table} (h : table.Ordered)
    (horder : table'.typeOrder = table.typeOrder) (hbase : table'.base.key = table.base.key)
    (htypes : ∀ key, (table'.types.get? key).isSome = (table.types.get? key).isSome) :
    table'.Ordered := by
  refine ⟨horder ▸ h.order, ?_, ?_, fun {key ty} ht => ?_, fun {key} hm => ?_⟩
  · rw [horder, hbase]
    exact h.base_mem
  · rw [← Option.isNone_iff_eq_none, ← Option.not_isSome, htypes, hbase, h.base_free]
    rfl
  · obtain ⟨former, hformer⟩ :=
      Option.isSome_iff_exists.1 ((htypes key).symm.trans (Option.isSome_of_eq_some ht))
    rw [horder]
    exact h.type_mem hformer
  · by_cases hk : key = table'.base.key
    · exact ⟨_, if_pos hk⟩
    · rw [horder] at hm
      obtain ⟨ty, hty⟩ := h.typed hm
      rw [type?_of_ne (hbase ▸ hk)] at hty
      rw [type?_of_ne hk]
      exact Option.isSome_iff_exists.1 ((htypes key).trans (Option.isSome_of_eq_some hty))

namespace Sound

variable {table : Table}

theorem withBase (h : table.Sound) (base : TableType)
    (hb : base.tree.Writable table.options.defaultTabLabel) (hk : base.key = table.base.key) :
    { table with base }.Sound :=
  ⟨h.toOrdered.congr rfl hk fun _ => rfl, h.label, hb, h.types, h.keys⟩

theorem withTypes (h : table.Sound) {types : Entries TableType}
    (ht : ∀ key ty, types.get? key = some ty → ty.tree.Writable table.options.defaultTabLabel)
    (hkeys : ∀ key, (types.get? key).isSome = (table.types.get? key).isSome) :
    { table with types }.Sound :=
  ⟨h.toOrdered.congr rfl rfl hkeys, h.label, h.base, fun hty => ht _ _ hty, h.keys⟩

theorem onType? (h : table.Sound) {key : String} {f : TableType → TableType × α}
    (hf : ∀ ty, ty.tree.Writable table.options.defaultTabLabel →
      (f ty).1.tree.Writable table.options.defaultTabLabel)
    (ht : table.onType? key f = some (table', answer)) : table'.Sound := by
  obtain ⟨ty, hty, he⟩ := Option.map_eq_some_iff.1 ht
  cases he
  refine h.withTypes (fun x u hx => ?_) fun x => ?_
  · rw [Entries.get?_put] at hx
    split at hx
    · cases hx
      exact hf ty (h.types hty)
    · exact h.types hx
  · rw [Entries.get?_put]
    split
    · next hx => rw [hx, hty, Option.isSome_some, Option.isSome_some]
    · rfl

theorem mapTypes (h : table.Sound) {f : TableType → TableType}
    (hf : ∀ ty, ty.tree.Writable table.options.defaultTabLabel →
      (f ty).tree.Writable table.options.defaultTabLabel) :
    { table with types := table.types.map fun e : String × TableType => (e.1, f e.2) }.Sound := by
  refine h.withTypes (fun x u hx => ?_) fun x => ?_
  · rw [Entries.get?_map] at hx
    obtain ⟨ty, hty, rfl⟩ := Option.map_eq_some_iff.1 hx
    exact hf ty (h.types hty)
  · rw [Entries.get?_map, Option.isSome_map]

end Sound

theorem writable_of_read (layout : Layout) {label : String} (hl : Text.Plain label)
    (columns : Columns) (parent : Option (String → Option Fields)) :
    (layout.read (.empty label) columns parent).tree.Writable label := by
  obtain ⟨r, htree, _, hs, _⟩ := Layout.read_sound layout (.empty label) columns parent
  rw [htree]
  exact ⟨⟨_, hs.linked.joined⟩, hs.holds.label_eq, fun hn => (hs.holds.nodes hn).1 hl⟩

theorem ordered_of_read {name : String} {value : Value} {options : Options} (hv : value.Proper)
    (h : Table.read name value options = .ok table) : table.Ordered := by
  obtain ⟨source, hs, _, types, ht, rfl⟩ := read_ok_iff.1 h
  obtain ⟨_, _, hd⟩ := hs.proper hv
  have hmem {key ty} (hty : Entries.get? types key = some ty) : key ∈ source.documents.names :=
    (Source.readType_of_readTypes ht hty).1
  have hfree : Entries.get? types (source.baseKey options) = none := by
    apply Option.eq_none_iff_forall_ne_some.2
    intro ty hty
    exact (Source.readType_of_readTypes ht hty).2.1 rfl
  have horder : (source.table options name types).typeOrder = if source.documents.isEmpty then
      [source.baseKey options] else source.documents.names := rfl
  cases he : source.documents.isEmpty with
  | true =>
    rw [he, if_pos rfl] at horder
    rw [List.isEmpty_iff.1 he] at hmem
    refine ⟨?_, ?_, hfree, fun hty => absurd (hmem hty) List.not_mem_nil, fun {key} hm => ?_⟩
    · rw [horder]
      exact List.nodup_singleton _
    · rw [horder]
      exact List.mem_singleton_self _
    · rw [horder] at hm
      exact ⟨_, if_pos (List.mem_singleton.1 hm)⟩
  | false =>
    rw [he, if_neg Bool.false_ne_true] at horder
    refine ⟨?_, ?_, hfree, fun hty => ?_, fun {key} hm => ?_⟩
    · rw [horder]
      exact hd
    · rw [horder]
      exact baseKey_mem options he
    · rw [horder]
      exact hmem hty
    · rw [horder] at hm
      by_cases hb : key = source.baseKey options
      · exact ⟨_, if_pos hb⟩
      · obtain ⟨e, he, rfl, _⟩ := exists_of_forall₂ (Source.readTypes_ok_iff.1 ht).flip
          (List.mem_filter.2 ⟨hm, decide_eq_true hb⟩)
        obtain ⟨ty, hty⟩ := Entries.mem_names_iff.1 (List.mem_map_of_mem he)
        exact ⟨ty, (type?_of_ne hb).trans hty⟩

theorem sound_of_read {name : String} {value : Value} {options : Options} (hv : value.Proper)
    (hl : Text.Plain options.defaultTabLabel) (h : Table.read name value options = .ok table)
    (hk : ∀ key ∈ table.typeOrder, Text.Plain key) : table.Sound := by
  have hordered := ordered_of_read hv h
  obtain ⟨source, hs, _, types, ht, rfl⟩ := read_ok_iff.1 h
  refine ⟨hordered, hl, writable_of_read _ hl _ _, fun {key ty} hty => ?_, hk⟩
  obtain ⟨_, _, hread⟩ := Source.readType_of_readTypes ht hty
  obtain ⟨columns, _, _, he⟩ := readType_ok_iff.1 hread
  rw [show ty = _ from he]
  exact writable_of_read _ hl _ _

theorem invalidate_eq (table : Table) (id : String) : (table.invalidate id).1 = { table with
    types := table.types.map fun e => (e.1, (e.2.refresh table.baseConfig? id).1) } := by
  simp only [Table.invalidate, List.map_map, Function.comp_def]

theorem removeField_eq (table : Table) (definitions : Definitions) (id : String) :
    (table.removeField definitions id).1 = { table with
      columns := table.columns.erase id
      base := { table.base with tree := (table.base.tree.dropField id).1 }
      types := table.types.map fun e => (e.1, (e.2.dropField id).1) } := by
  simp only [Table.removeField, List.map_map, Function.comp_def]

theorem Opened.sound (h : Opened table) : table.Sound := by
  induction h with
  | read hv hl h hk => exact sound_of_read hv hl h hk
  | editBase _ he ih => exact ih.withBase _ (ih.base.run ih.label he) rfl
  | editType _ he ht ih => exact ih.onType? (fun ty hty => hty.run ih.label he) ht
  | field _ he ht ih =>
    refine ih.onType? (fun ty hty => ?_) ht
    rw [TableType.field]
    split
    · exact hty.run ih.label he
    · exact hty.run ih.label (e := .field _ _ _) he
  | resolve _ ht ih => exact ih.onType? (fun ty hty => hty) ht
  | @invalidate table id _ ih =>
    rw [invalidate_eq]
    exact ih.mapTypes fun ty hty => hty.refresh _ id
  | @removeField table definitions id _ ih =>
    have hs := (ih.withBase { table.base with tree := (table.base.tree.dropField id).1 }
      (ih.base.dropField ih.label id) rfl).mapTypes (f := fun ty => (ty.dropField id).1)
      fun ty hty => hty.dropField ih.label id
    rw [removeField_eq]
    exact ⟨hs.toOrdered.congr rfl rfl fun _ => rfl, hs.label, hs.base, hs.types, hs.keys⟩

end Table

end FormLayout
