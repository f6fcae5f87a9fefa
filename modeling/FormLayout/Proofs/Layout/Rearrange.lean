import FormLayout.Proofs.Layout.Outline
import Mathlib.Data.List.Perm.Subperm
/-!
Reading what a tree was written as, after nodes of a tree that was read were moved and removed.
-/

namespace FormLayout
set_option autoImplicit true

/-- Moves and removals of nodes. -/
def TreeEdit.Rearranges : TreeEdit → Prop
  | .move _ _ | .tryMove _ _ | .remove _ => True
  | _ => False

/-- The tree after some edits. An edit that fails does not stop the others. -/
def FormTree.runAll (t : FormTree) (edits : List TreeEdit) : FormTree :=
  edits.foldl (fun t e => (t.run e).1) t

theorem TreeEdit.Rearranges.anchored {e : TreeEdit} (h : e.Rearranges) (t : FormTree) :
    e.Anchored t := by
  cases e <;> trivial

theorem TreeEdit.Rearranges.keeps {e : TreeEdit} (h : e.Rearranges) (P : Node → Prop) :
    e.Keeps P := by
  cases e <;> trivial

namespace FormTree

/-- A tree with nodes of another one only, where each has the same kind. -/
def Within (u t : FormTree) : Prop :=
  ∀ x n, u.node? x = some n → ∃ m, t.node? x = some m ∧ m.kind = n.kind

theorem Within.trans {t u v : FormTree} (h : v.Within u) (h' : u.Within t) : v.Within t := by
  intro x n hn
  obtain ⟨m, hm, hk⟩ := h x n hn
  obtain ⟨k, hk', hkk⟩ := h' x m hm
  exact ⟨k, hk', hkk.trans hk⟩

variable {t u : FormTree} {loose : String → Prop}

theorem Within.refl (t : FormTree) : t.Within t := fun _ n hn => ⟨n, hn, rfl⟩

namespace Linked

theorem within_relocate (h : t.Linked loose) {id : String} (hn : t.node? id = some n)
    (hc : t.Admits c n.kind) (a : Anchor) : (t.relocate id c a).Within t := by
  intro x m hm
  rw [h.node?_relocate hn hc] at hm
  obtain ⟨k, hk, rfl⟩ := Option.map_eq_some_iff.1 hm
  exact ⟨k, hk, rfl⟩

/-- In a tree with a tab a move adds no node. -/
theorem within_place (h : t.Linked loose) (ht : t.tabs ≠ []) {id : String}
    (hu : t.place id position = .ok u) : u.Within t := by
  obtain ⟨n, hn, ⟨_, rfl⟩ | ⟨_, s, c, a, rfl | ⟨rfl, _⟩, hc, rfl⟩⟩ := h.place_cases hu
  · exact .refl _
  · exact h.within_relocate hn hc a
  · rw [ensureTab_of_ne_nil ht] at hc ⊢
    exact h.within_relocate hn hc a

theorem within_remove (h : t.Linked loose) {id : String} (hu : t.remove id = .ok (u, removed)) :
    u.Within t := by
  obtain ⟨_, hgone, hkept⟩ := h.node?_remove hu
  intro x n hn
  by_cases hb : t.Below id x
  · cases hn.symm.trans (hgone x hb)
  · rw [hkept x hb] at hn
    obtain ⟨m, hm, rfl⟩ := Option.map_eq_some_iff.1 hn
    exact ⟨m, hm, rfl⟩

/-- Moves and removals add no node: in a tree without tabs there is nothing to move. -/
theorem within_run (h : t.Linked fun _ => False) {e : TreeEdit} (he : e.Rearranges) :
    (t.run e).1.Within t := by
  have hmove {id position u} (hu : t.moveTo id position = .ok u) : u.Within t := by
    obtain ⟨p, _, hu⟩ := moveTo_cases hu
    refine h.within_place (fun ht => ?_) hu
    obtain ⟨n, hn, _⟩ := h.place_cases hu
    rw [node?, h.nodes_eq_nil ht] at hn
    cases hn
  cases e with
  | move id position =>
    rw [FormTree.run]
    split
    · next hu => exact hmove hu
    · exact .refl t
  | tryMove id position =>
    rw [FormTree.run]
    split
    · next hu => exact hmove (eq_ok_of_recovered hu)
    · exact .refl t
    · exact .refl t
  | remove id =>
    rw [FormTree.run, FormTree.removeAnswering]
    split
    · next hu => exact h.within_remove hu
    · exact .refl t
  | _ => cases he

theorem runAll (h : t.Linked fun _ => False) {edits : List TreeEdit}
    (he : ∀ e ∈ edits, e.Rearranges) :
    (t.runAll edits).Linked (fun _ => False) ∧ (t.runAll edits).Within t := by
  induction edits generalizing t with
  | nil => exact ⟨h, .refl t⟩
  | cons e rest ih =>
    have hfirst := he e List.mem_cons_self
    obtain ⟨hrest, hw⟩ := ih (h.run (hfirst.anchored t)) fun e hm =>
      he e (List.mem_cons_of_mem _ hm)
    exact ⟨hrest, hw.trans (h.within_run hfirst)⟩

end Linked

theorem Holds.runAll (h : t.Holds label P) (hP : Node.Lasting label P) {edits : List TreeEdit}
    (he : ∀ e ∈ edits, e.Rearranges) : (t.runAll edits).Holds label P := by
  induction edits generalizing t with
  | nil => exact h
  | cons e rest ih =>
    exact ih (h.run hP ((he e List.mem_cons_self).keeps P))
      fun e hm => he e (List.mem_cons_of_mem _ hm)

theorem Within.tabs_subset (hw : u.Within t) (hu : u.Linked fun _ => False)
    (ht : t.Linked fun _ => False) : u.tabs ⊆ t.tabs := by
  intro x hx
  obtain ⟨_, n, hn, hk⟩ := hu.mem_tabs.1 hx
  obtain ⟨m, hm, hmk⟩ := hw x n hn
  exact ht.mem_tabs.2 ⟨not_false, m, hm, hmk.trans hk⟩

end FormTree

namespace Layout

variable {around : Surroundings} {label : String} {r : Reading} {t : FormTree}

/-- A tree without a field under the number of a tab stays so: tabs get fewer only. -/
theorem Reading.Sound.unnumbered_within (h : r.Sound around label)
    (hl : t.Linked fun _ => False) (hw : t.Within r.tree) : Unnumbered t := by
  intro k hk
  have hle : t.tabs.length ≤ r.tree.tabs.length :=
    (hl.tabs_nodup.subperm (hw.tabs_subset hl h.linked)).length_le
  have hm : toString k ∈ r.tree.tabs := by
    rw [h.numbered]
    exact List.mem_map_of_mem (List.mem_range.2 (Nat.lt_of_lt_of_le hk hle))
  obtain ⟨_, tab, htab, hkind⟩ := h.linked.mem_tabs.1 hm
  cases hf : t.node? (toString k) with
  | none => rw [FormTree.field?, hf]; rfl
  | some n =>
    obtain ⟨m, hm, he⟩ := hw _ n hf
    cases htab.symm.trans hm
    rw [FormTree.field?, hf, Option.filter_some, if_neg]
    rw [← he, hkind]
    simp

/-- What a tree is written as covers the tree, where its fields are known. -/
theorem covers_layout {columns : Columns} (parent : Option (String → Option Fields))
    (hl : t.Linked fun _ => False) (hp : t.Holds label Node.Plain)
    (hk : ∀ id n config, t.node? id = some n → n.content = .field config →
      (Surroundings.config? ⟨t.layout.palettes, parent⟩ columns id).isSome = true) :
    Covers ⟨t.layout.palettes, parent⟩ columns t where
  inside? {id n name} hn hc := by
    have hid := hl.palette_keyed hn (Node.palette?_eq_some_iff.2 hc)
    have hget : t.layout.palettes.get? name = some (ShowItem.text (t.inside id)) := by
      rw [hid, hl.get?_layout_palettes hp (mem_itemsOf_palette hl hn hc)
        (reference?_paletteItem n name)]
    rw [Surroundings.inside?, hget, Option.map_some, hp.essence_inside]
  known hn hc := hk _ _ _ hn hc

/-- A tree that was read, with nodes moved and removed, reads again as it was written: no column is
added, and each field and palette comes back into its container, with its place and label. This
includes what was built up to a failure of the first reading. -/
theorem read_layout_rearranged (layout : Layout) (tree again : FormTree) (columns : Columns)
    (parent : Option (String → Option Fields)) (edits : List TreeEdit)
    (hlabel : Text.Plain tree.defaultTabLabel) (hagain : Text.Plain again.defaultTabLabel)
    (hedits : ∀ e ∈ edits, e.Rearranges)
    (htabs : ((layout.read tree columns parent).tree.runAll edits).tabs ≠ []) :
    let first := layout.read tree columns parent
    let t := first.tree.runAll edits
    let second := t.layout.read again first.columns parent
    second.failure = none ∧ second.columns = first.columns ∧ second.tree.layout = t.layout ∧
      second.tree.outline = t.outline := by
  obtain ⟨r, htree, hcolumns, hs, _⟩ := read_sound layout tree columns parent
  simp only [htree, hcolumns] at htabs ⊢
  have hlasting := Node.lasting_read ⟨layout.palettes, parent⟩ r.columns tree.defaultTabLabel
  obtain ⟨hl, hw⟩ := hs.linked.runAll hedits
  have hread := hs.holds.runAll hlasting hedits
  generalize r.tree.runAll edits = t at *
  have hp : t.Holds tree.defaultTabLabel Node.Plain :=
    ⟨hread.label_eq, fun hn => (hread.nodes hn).1 hlabel⟩
  have hcovers : Covers ⟨t.layout.palettes, parent⟩ r.columns t := by
    refine covers_layout parent hl hp fun id n config hn hc => ?_
    have hknown := (hread.nodes hn).2.1 config hc
    rw [hl.keyed hn] at hknown
    exact Option.isSome_of_eq_some hknown
  obtain ⟨r', hr', hs', _, hitems, hinside⟩ :=
    hcovers.read hl hp htabs (hs.unnumbered_within hl hw) again
  have hp' : r'.tree.Holds again.defaultTabLabel Node.Plain :=
    ⟨hs'.holds.label_eq, fun hn => (hs'.holds.nodes hn).1 hagain⟩
  have hlayout : t.layout.read again r.columns parent =
      ⟨r'.tree, r.columns, r'.asked.reverse, none⟩ := hr'
  rw [hlayout]
  exact ⟨rfl, rfl, layout_eq hl hp hs'.linked hp' hitems hinside,
    outline_eq hl hp hs'.linked hp' hitems hinside⟩

/-- A field that is taken out of a palette, with a tab and a field removed. -/
theorem read_layout_of_move_and_remove :
    let layout : Layout := ⟨"--palette--;;p, --div--;Second, b", [("p", "c, --linebreak--, d")]⟩
    let first := layout.read (.empty "general") [("b", []), ("c", [])] none
    let t := first.tree.runAll [.move "c" "top:0", .remove "1"]
    let second := t.layout.read (.empty "general") first.columns none
    second.failure = none ∧ second.columns = first.columns ∧ second.tree.layout = t.layout ∧
      second.tree.outline = t.outline := by
  refine read_layout_rearranged _ _ _ _ _ _ ?_ ?_ ?_ ?_
  · decide +kernel
  · decide +kernel
  · intro e he
    rcases List.mem_cons.1 he with rfl | he
    · trivial
    · rw [List.mem_singleton.1 he]
      trivial
  · decide +kernel

end Layout

end FormLayout
