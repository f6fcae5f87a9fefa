import FormLayout.Proofs.Table.Columns
import FormLayout.Proofs.Table.Runs
/-!
Tables whose trees all hold together, as they do after any calls, whatever texts are put in.
-/

namespace FormLayout
set_option autoImplicit true

namespace FormTree

/-- A tree after a field was dropped: the field is gone from its container, and everything else is as
it was. Other nodes of this id stay. -/
inductive Dropped (t : FormTree) (id : String) : FormTree → Prop where
  | absent : t.field? id = none → Dropped t id t
  | removed {u : FormTree} : (t.field? id).isSome = true → u.tabs = t.tabs →
    u.defaultTabLabel = t.defaultTabLabel → u.lineBreaks = t.lineBreaks → u.node? id = none →
    (∀ x, x ≠ id → u.node? x =
      (t.node? x).map fun n => { n with children := n.children.filter (· ≠ id) }) →
    Dropped t id u

theorem Dropped.field?_eq_none {t u : FormTree} {id : String} (h : t.Dropped id u) :
    u.field? id = none := by
  cases h with
  | absent hnone => exact hnone
  | removed _ _ _ _ hnone _ =>
    rw [field?, hnone]
    rfl

theorem snd_dropField (t : FormTree) (id : String) :
    (t.dropField id).2 = (t.field? id).isSome := by
  cases h : t.field? id with
  | none => rw [dropField_of_none h, Option.isSome_none]
  | some n =>
    obtain ⟨u, removed, _, he⟩ := dropField_of_some (Option.isSome_of_eq_some h)
    rw [he, Option.isSome_some]

namespace Joined

variable {t : FormTree} {loose : String → Prop}

theorem below_field (h : t.Joined loose) {id : String} (hn : t.node? id = some n)
    (hk : n.kind = .field) : t.Below id x ↔ x = id := by
  constructor
  · intro hb
    rcases Relation.ReflTransGen.cases_head hb with he | ⟨c, hc, _⟩
    · exact he.symm
    · obtain ⟨m, _, hm, _, hcan⟩ := h.node_of_lists hc
      cases hn.symm.trans hm
      rw [hk] at hcan
      cases hcan
  · rintro rfl
    exact .refl

theorem dropped (h : t.Joined loose) (id : String) : t.Dropped id (t.dropField id).1 := by
  cases hf : t.field? id with
  | none =>
    rw [dropField_of_none hf]
    exact .absent hf
  | some n =>
    obtain ⟨hn, hk⟩ := Option.filter_eq_some_iff.1 hf
    have hk : n.kind = .field := of_decide_eq_true hk
    have hsome : (t.field? id).isSome = true := Option.isSome_of_eq_some hf
    obtain ⟨u, removed, hu, he⟩ := dropField_of_some hsome
    obtain ⟨htabs, hgone, hkept⟩ := h.node?_remove hu
    have hnot : id ∉ t.tabs := h.not_mem_tabs hn (by simp [hk])
    rw [he]
    apply Dropped.removed hsome _ (remove_keeps hu).1 (remove_keeps hu).2
    · exact hgone id ((h.below_field hn hk).2 rfl)
    · intro x hx
      rw [hkept x fun hb => hx ((h.below_field hn hk).1 hb)]
      apply Option.map_congr
      intro m hm
      have hne : m.id ≠ id := by rwa [h.keyed hm]
      rw [Node.taken, if_neg hne]
    · rw [htabs, filter_ne_eq_self hnot]

theorem dropField (h : t.Joined loose) (id : String) :
    ∃ loose', (t.dropField id).1.Joined loose' := by
  cases hf : t.field? id with
  | none =>
    rw [dropField_of_none hf]
    exact ⟨loose, h⟩
  | some n =>
    obtain ⟨u, removed, hu, he⟩ := dropField_of_some (Option.isSome_of_eq_some hf)
    obtain ⟨loose', hj, _⟩ := h.removeAnswering id
    rw [FormTree.removeAnswering, hu] at hj
    rw [he]
    exact ⟨loose', hj⟩

end Joined

end FormTree

namespace TableType

/-- The tree of a type holds together. -/
def Woven (ty : TableType) : Prop := ∃ loose, ty.tree.Joined loose

theorem Woven.edit {ty : TableType} (h : ty.Woven) (e : TreeEdit) : (ty.edit e).1.Woven := by
  obtain ⟨loose, hj⟩ := h
  obtain ⟨loose', hrun, _⟩ := hj.run e
  exact ⟨loose', hrun⟩

theorem Woven.field {ty : TableType} (h : ty.Woven) (lookup : String → Option Fields) (id : String)
    (edits : List NodeEdit) : (ty.field lookup id edits).1.Woven := by
  rw [TableType.field]
  split
  · exact h.edit _
  · have hresolved : (ty.resolve lookup id).1.Woven := h
    exact hresolved.edit _

theorem Woven.refresh {ty : TableType} (h : ty.Woven) (lookup : String → Option Fields)
    (id : String) : (ty.refresh lookup id).1.Woven := by
  rcases ty.refresh_cases lookup id with ⟨_, he⟩ | ⟨_, _, ⟨_, he⟩ | ⟨_, _, he⟩⟩ <;> rw [he]
  · exact h
  · exact h
  · obtain ⟨loose, hj⟩ := h
    exact ⟨loose, hj.update id (Node.keepsLinks_configure _)⟩

theorem Woven.dropField {ty : TableType} (h : ty.Woven) (id : String) :
    (ty.dropField id).1.Woven := by
  obtain ⟨loose, hj⟩ := h
  exact hj.dropField id

end TableType

namespace Table

variable {start table table' : Table}

/-- The order of a table fits, no column is stored twice, and every tree holds together. -/
structure Woven (table : Table) : Prop extends Grounded table where
  types {e : String × TableType} : e ∈ table.types → e.2.Woven

namespace Woven

theorem of_kept (h : table.Woven) (hk : Kept table table') (hb : table'.base.Woven)
    (hc : table'.columns.Distinct) (ht : ∀ e ∈ table'.types, e.2.Woven) : table'.Woven :=
  { hk.ordered h.toOrdered with
    joined := hb
    distinct := hc
    types := fun {e} => ht e }

theorem onType (h : table.Woven) {key : String} {f : TableType → TableType × α}
    (hf : ∀ ty, ty.Woven → (f ty).1.Woven) (hd : ∀ ty, (f ty).1.document = ty.document) :
    (((table.onType? key f).map Prod.fst).getD table).Woven := by
  have hkept : Kept table (((table.onType? key f).map Prod.fst).getD table) :=
    (Kept.refl table).onType hd
  rw [onType?] at hkept ⊢
  cases ht : table.types.get? key with
  | none => exact h
  | some ty =>
    rw [ht] at hkept
    apply h.of_kept hkept h.joined h.distinct
    intro e he
    rcases Entries.mem_put he with rfl | he
    · exact hf ty (h.types (Entries.mem_of_get? ht))
    · exact h.types he

theorem run (h : table.Woven) (e : TableEdit) : (table.run e).Woven := by
  have hkept := (Kept.refl table).run e
  have hmap {f : TableType → TableType} (hf : ∀ ty, ty.Woven → (f ty).Woven) :
      ∀ e ∈ table.types.map fun e : String × TableType => (e.1, f e.2), e.2.Woven := by
    intro e he
    obtain ⟨e, hm, rfl⟩ := List.mem_map.1 he
    exact hf e.2 (h.types hm)
  cases e with
  | base e =>
    have hbase : table.base.Woven := h.joined
    exact h.of_kept hkept (hbase.edit e) h.distinct fun _ => h.types
  | type key e => exact h.onType (fun ty hty => hty.edit e) fun _ => rfl
  | field key id edits =>
    exact h.onType (fun ty hty => hty.field _ id edits) fun ty => Kept.document_field ty _ _ _
  | resolve key id => exact h.onType (fun ty hty => hty) fun _ => rfl
  | invalidate id =>
    rw [Table.run, invalidate_eq] at hkept ⊢
    exact h.of_kept hkept h.joined h.distinct (hmap fun ty hty => hty.refresh _ id)
  | removeField definitions id =>
    have hbase : table.base.Woven := h.joined
    rw [Table.run, removeField_eq] at hkept ⊢
    exact h.of_kept hkept (hbase.dropField id) (h.distinct.erase id)
      (hmap fun ty hty => hty.dropField id)

theorem runAll (h : start.Woven) (edits : List TableEdit) : (start.runAll edits).Woven :=
  runAll_induction h fun _ e _ h => h.run e

end Woven

theorem woven_of_read {name : String} {value : Value} {options : Options} (hv : value.Proper)
    (h : Table.read name value options = .ok table) : table.Woven := by
  have hgrounded := (parsed_of_read hv h).grounded
  obtain ⟨source, hs, hf, types, ht, rfl⟩ := read_ok_iff.1 h
  constructor
  case toGrounded => exact hgrounded
  case types =>
    intro e he
    obtain ⟨key, _, _, hread⟩ := exists_of_forall₂ (Source.readTypes_ok_iff.1 ht) he
    obtain ⟨columns, _, hfail, he⟩ := readType_ok_iff.1 hread
    rw [he]
    exact ⟨_, (reading_of_read _ _ _ _ hfail).1.linked.joined⟩

end Table

end FormLayout
