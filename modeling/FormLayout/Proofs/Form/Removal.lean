import FormLayout.Proofs.Form.Consistency
/-!
What a removal takes out: one node with all below it, a block of the walk. Nothing else changes,
except that the list that held the node holds it no longer.
-/

namespace FormLayout
set_option autoImplicit true

open Relation

theorem flatMap_filter_of_nil {p : α → Bool} {f : α → List β} {l : List α}
    (h : ∀ x ∈ l, p x = false → f x = []) : (l.filter p).flatMap f = l.flatMap f := by
  induction l with
  | nil => rfl
  | cons x l ih =>
    rw [List.forall_mem_cons] at h
    rw [List.filter_cons, List.flatMap_cons, ← ih h.2]
    split
    · rfl
    · next hx => rw [h.1 (Bool.not_eq_true _ ▸ hx), List.nil_append]

theorem filter_between {f : α → String} {before l after : List α}
    (h : ((before ++ l ++ after).map f).Nodup) :
    (before ++ l ++ after).filter (f · ∉ l.map f) = before ++ after := by
  rw [List.map_append, List.map_append, List.nodup_append, List.nodup_append] at h
  obtain ⟨⟨_, _, hbefore⟩, _, hafter⟩ := h
  have hinside : l.filter (f · ∉ l.map f) = [] := by
    apply List.filter_eq_nil_iff.2
    intro x hx
    simpa using ⟨x, hx, rfl⟩
  have hfront : before.filter (f · ∉ l.map f) = before := by
    apply List.filter_eq_self.2
    intro x hx
    exact decide_eq_true fun hm => hbefore _ (List.mem_map_of_mem hx) _ hm rfl
  have hback : after.filter (f · ∉ l.map f) = after := by
    apply List.filter_eq_self.2
    intro x hx
    exact decide_eq_true fun hm =>
      hafter _ (List.mem_append_right _ hm) _ (List.mem_map_of_mem hx) rfl
  rw [List.filter_append, List.filter_append, hinside, hfront, hback, List.append_nil]

namespace Node

/-- A node that lists another one no longer. -/
def without (id : String) (n : Node) : Node :=
  { n with children := n.children.filter (· ≠ id) }

theorem taken_of_ne {id : String} {n : Node} (h : n.id ≠ id) : n.taken id = n.without id := by
  rw [taken, if_neg h]
  rfl

theorem without_of_not_mem {id : String} {n : Node} (h : id ∉ n.children) : n.without id = n := by
  rw [without, filter_ne_eq_self h]

end Node

namespace FormTree

/-- What a search with a stack of ids visits: the first node, then its children, then the rest. -/
inductive Visits (t : FormTree) : List String → List Node → Prop where
  | done : Visits t [] []
  | missing : t.node? x = none → Visits t rest out → Visits t (x :: rest) out
  | visit : t.node? x = some n → Visits t (n.children ++ rest) out → Visits t (x :: rest) (n :: out)

/-- One node was removed with all below it, and nothing else changed. -/
structure Removed (t u : FormTree) (id : String) (removed : List Node) : Prop where
  block : ∃ before n rest after, t.walk = before ++ (n :: rest) ++ after ∧ n.id = id ∧
    t.Visits [id] (n :: rest) ∧ removed = { n with parent := none } :: rest ∧
    u.walk = (before ++ after).map (Node.without id)
  mem_ids (x : String) : x ∈ removed.map Node.id ↔ t.Below id x
  once : (removed.map Node.id).Nodup
  gone (x : String) : t.Below id x → u.has x = false
  holder (x : String) : t.Lists x id → u.node? x = (t.node? x).map (Node.without id)
  others (x : String) : ¬ t.Below id x → ¬ t.Lists x id → u.node? x = t.node? x
  tabs : u.tabs = t.tabs.filter (· ≠ id)
  defaultTabLabel : u.defaultTabLabel = t.defaultTabLabel
  lineBreaks : u.lineBreaks = t.lineBreaks
  consistent : u.Consistent

namespace Visits

variable {t : FormTree}

theorem unique (h : t.Visits ids out) (h' : t.Visits ids out') : out = out' := by
  induction h generalizing out' with
  | done =>
    cases h'
    rfl
  | missing hx _ ih =>
    cases h' with
    | missing _ h' => exact ih h'
    | visit hx' _ => cases hx.symm.trans hx'
  | visit hx _ ih =>
    cases h' with
    | missing hx' _ => cases hx.symm.trans hx'
    | visit hx' h' =>
      cases hx.symm.trans hx'
      rw [ih h']

/-- Ids are visited one after the other. -/
theorem append {f : String → List Node} {l : List String}
    (hl : ∀ x ∈ l, ∀ rest out, t.Visits rest out → t.Visits (x :: rest) (f x ++ out))
    (hr : t.Visits rest out) : t.Visits (l ++ rest) (l.flatMap f ++ out) := by
  induction l with
  | nil => exact hr
  | cons x l ih =>
    rw [List.forall_mem_cons] at hl
    rw [List.flatMap_cons, List.append_assoc]
    exact hl.1 _ _ (ih hl.2)

end Visits

theorem node_of_mem_subtree {t : FormTree} (hm : m ∈ t.subtree depth x) :
    ∃ y, t.Below x y ∧ t.node? y = some m := by
  induction depth generalizing x with
  | zero => cases hm
  | succ depth ih =>
    rw [subtree] at hm
    cases hn : t.node? x with
    | none =>
      rw [hn] at hm
      cases hm
    | some n =>
      rw [hn] at hm
      rcases List.mem_cons.1 hm with rfl | hm
      · exact ⟨x, .refl, hn⟩
      · obtain ⟨c, hc, hm⟩ := List.mem_flatMap.1 hm
        obtain ⟨y, hy, hym⟩ := ih hm
        exact ⟨y, .head ⟨n, hn, hc⟩ hy, hym⟩

namespace Linked

variable {t u : FormTree} {loose : String → Prop}

theorem child_height (h : t.Linked loose) (hn : t.node? x = some n) (hc : c ∈ n.children) :
    ∃ m, t.node? c = some m ∧ m.kind.height < n.kind.height := by
  obtain ⟨n', m, hn', hm, hcan⟩ := h.node_of_lists ⟨n, hn, hc⟩
  cases hn.symm.trans hn'
  exact ⟨m, hm, NodeKind.height_lt_of_canContain hcan⟩

/-- Every kind is low enough for its whole subtree to be visited. -/
theorem visits_subtree (h : t.Linked loose) (hn : t.node? x = some n)
    (hd : n.kind.height ≤ depth) (hr : t.Visits rest out) :
    t.Visits (x :: rest) (t.subtree depth x ++ out) := by
  induction depth generalizing x n rest out with
  | zero => cases hk : n.kind <;> simp [hk, NodeKind.height] at hd
  | succ depth ih =>
    rw [subtree, hn]
    refine .visit hn (.append (fun c hc rest out hr => ?_) hr)
    obtain ⟨m, hm, hlt⟩ := h.child_height hn hc
    exact ih hm (by omega) hr

theorem visits_subtree_levels (h : t.Linked loose) (hn : t.node? x = some n)
    (hd : n.kind.height ≤ depth) : t.Visits [x] (t.subtree depth x) := by
  have hone := h.visits_subtree hn hd .done
  rwa [List.append_nil] at hone

/-- What stands below a node that stands below another one is a block there. -/
theorem subtree_block (h : t.Linked loose) {id : String} (hb : t.Below x id)
    (hx : t.node? x = some m) (hd : m.kind.height ≤ depth) :
    ∃ before after, t.subtree depth x = before ++ t.subtree levels id ++ after := by
  induction hb using ReflTransGen.head_induction_on generalizing depth m with
  | refl =>
    have hsame := (h.visits_subtree_levels hx hd).unique
      (h.visits_subtree_levels hx (height_le_levels _))
    exact ⟨[], [], by rw [hsame, List.nil_append, List.append_nil]⟩
  | head hl _ ih =>
    obtain ⟨m', hm', hc⟩ := hl
    cases hx.symm.trans hm'
    obtain ⟨k, hk, hlt⟩ := h.child_height hx hc
    cases depth with
    | zero => omega
    | succ depth =>
      have hle : k.kind.height ≤ depth := by omega
      obtain ⟨before, after, hblock⟩ := ih hk hle
      obtain ⟨left, right, hsplit⟩ := List.append_of_mem hc
      refine ⟨m :: left.flatMap (t.subtree depth) ++ before,
        after ++ right.flatMap (t.subtree depth), ?_⟩
      rw [subtree, hx]
      dsimp only
      rw [hsplit, List.flatMap_append, List.flatMap_cons, hblock]
      simp only [List.cons_append, List.append_assoc]

theorem walk_block (h : t.Linked fun _ => False) {id : String} (hn : t.node? id = some n) :
    ∃ before after, t.walk = before ++ t.subtree levels id ++ after := by
  obtain ⟨tab, ht, hb⟩ := h.joined.below_tab hn not_false
  obtain ⟨_, m, hm, _⟩ := h.mem_tabs.1 ht
  obtain ⟨before, after, hblock⟩ := h.subtree_block hb hm (height_le_levels _)
  obtain ⟨left, right, hsplit⟩ := List.append_of_mem ht
  refine ⟨left.flatMap (t.subtree levels) ++ before, after ++ right.flatMap (t.subtree levels), ?_⟩
  rw [walk, hsplit, List.flatMap_append, List.flatMap_cons, hblock]
  simp only [List.append_assoc]

theorem mem_ids_removed (h : t.Linked loose) {id : String} (hu : t.remove id = .ok (u, removed)) :
    x ∈ removed.map Node.id ↔ t.Below id x := by
  obtain ⟨hid, hremoved, _⟩ := remove_cases hu
  obtain ⟨n, hn⟩ := has_iff.1 hid
  rw [hremoved]
  exact h.mem_removed hn

/-- After a removal a node stands above the same nodes as before, the removed ones apart. -/
theorem subtree_remove (h : t.Linked loose) {id : String} (hu : t.remove id = .ok (u, removed))
    (depth : Nat) (x : String) : u.subtree depth x =
      ((t.subtree depth x).filter (·.id ∉ removed.map Node.id)).map (Node.taken id) := by
  obtain ⟨_, hgone, hkept⟩ := h.node?_remove hu
  have hnil (d : Nat) {y : String} (hb : t.Below id y) : u.subtree d y = [] := by
    cases d with
    | zero => rfl
    | succ d => rw [subtree, hgone y hb]
  induction depth generalizing x with
  | zero => rfl
  | succ depth ih =>
    by_cases hb : t.Below id x
    · rw [hnil _ hb, List.filter_eq_nil_iff.2 ?_, List.map_nil]
      intro m hm
      obtain ⟨y, hy, hym⟩ := node_of_mem_subtree hm
      have hmem : m.id ∈ removed.map Node.id := by
        rw [h.keyed hym, h.mem_ids_removed hu]
        exact hb.trans hy
      simpa using hmem
    · rw [subtree, subtree, hkept x hb]
      cases hx : t.node? x with
      | none => rfl
      | some n =>
        have hself : n.id ∉ removed.map Node.id := by
          rw [h.keyed hx, h.mem_ids_removed hu]
          exact hb
        have hleft : ∀ c ∈ n.children, decide (c ≠ id) = false → u.subtree depth c = [] := by
          intro c _ hc
          rw [not_not.1 (of_decide_eq_false hc)]
          exact hnil depth .refl
        rw [Option.map_some]
        dsimp only
        rw [List.filter_cons, if_pos (decide_eq_true hself), List.map_cons, Node.children_taken,
          flatMap_filter_of_nil hleft, List.filter_flatMap, List.map_flatMap]
        congr 1
        exact List.flatMap_congr fun c _ => ih c

theorem walk_remove (h : t.Linked loose) {id : String} (hu : t.remove id = .ok (u, removed)) :
    u.walk = (t.walk.filter (·.id ∉ removed.map Node.id)).map (Node.taken id) := by
  obtain ⟨htabs, hgone, _⟩ := h.node?_remove hu
  have hleft : ∀ tab ∈ t.tabs, decide (tab ≠ id) = false → u.subtree levels tab = [] := by
    intro tab _ he
    rw [not_not.1 (of_decide_eq_false he), levels, subtree, hgone id .refl]
  rw [walk, walk, htabs, flatMap_filter_of_nil hleft, List.filter_flatMap, List.map_flatMap]
  exact List.flatMap_congr fun x _ => h.subtree_remove hu levels x

/-- The removed nodes are those of the subtree, of which only the first one loses its parent. -/
theorem subtree_detach_self (h : t.Linked loose) {id : String} (hn : t.node? id = some n) :
    ∃ rest, t.subtree levels id = n :: rest ∧
      (t.detach id).subtree levels id = { n with parent := none } :: rest := by
  obtain ⟨rest, hrest⟩ : ∃ rest, t.subtree levels id = n :: rest := by
    rw [levels, subtree, hn]
    exact ⟨_, rfl⟩
  have hfree {m} (hm : m ∈ n :: rest) : id ∉ m.children := by
    intro hc
    rw [← hrest] at hm
    obtain ⟨y, hy, hym⟩ := node_of_mem_subtree hm
    exact h.not_below_of_lists ⟨m, hym, hc⟩ hy
  have hnodup := h.nodup_subtree hn (height_le_levels n.kind)
  rw [hrest, List.map_cons, List.nodup_cons, h.keyed hn] at hnodup
  have hself : n.taken id = { n with parent := none } := by
    rw [Node.taken_of_not_mem (hfree List.mem_cons_self), if_pos (h.keyed hn)]
  have hothers : rest.map (Node.taken id) = rest := by
    refine (List.map_congr_left fun m hm => ?_).trans (List.map_id rest)
    have hne : m.id ≠ id := fun he => hnodup.1 (he ▸ List.mem_map_of_mem hm)
    rw [Node.taken_of_ne hne, Node.without_of_not_mem (hfree (List.mem_cons_of_mem _ hm)), id_eq]
  exact ⟨rest, hrest, by rw [h.subtree_detach .refl, hrest, List.map_cons, hself, hothers]⟩

theorem node?_kept (h : t.Linked loose) {id : String} (hu : t.remove id = .ok (u, removed))
    (hb : ¬ t.Below id x) : u.node? x = (t.node? x).map (Node.without id) := by
  rw [(h.node?_remove hu).2.2 x hb]
  cases hx : t.node? x with
  | none => rfl
  | some m =>
    have hne : m.id ≠ id := fun he => hb ((h.keyed hx).symm.trans he ▸ .refl)
    rw [Option.map_some, Option.map_some, Node.taken_of_ne hne]

/-- The removed nodes are the subtree, which is a block of the walk. -/
theorem block_remove (h : t.Linked fun _ => False) {id : String}
    (hu : t.remove id = .ok (u, removed)) : ∃ before n rest after,
      t.walk = before ++ (n :: rest) ++ after ∧ n.id = id ∧ t.Visits [id] (n :: rest) ∧
      removed = { n with parent := none } :: rest ∧
      u.walk = (before ++ after).map (Node.without id) := by
  obtain ⟨hid, hremoved, _⟩ := remove_cases hu
  obtain ⟨n, hn⟩ := has_iff.1 hid
  obtain ⟨rest, hsubtree, hdetached⟩ := h.subtree_detach_self hn
  obtain ⟨before, after, hblock⟩ := h.walk_block hn
  have hremoved' : removed = { n with parent := none } :: rest := hremoved.trans hdetached
  have hids : removed.map Node.id = (n :: rest).map Node.id := by rw [hremoved']; rfl
  have hnodup := h.nodup_walk
  rw [hblock, hsubtree] at hnodup
  have hleft : u.walk = (before ++ after).map (Node.taken id) := by
    rw [h.walk_remove hu, hids, hblock, hsubtree, filter_between hnodup]
  refine ⟨before, n, rest, after, hsubtree ▸ hblock, h.keyed hn, ?_, hremoved', ?_⟩
  · exact hsubtree ▸ h.visits_subtree_levels hn (height_le_levels _)
  · rw [hleft]
    apply List.map_congr_left
    intro m hm
    rw [← filter_between hnodup, ← hids] at hm
    have hout : m.id ∉ removed.map Node.id := of_decide_eq_true (List.mem_filter.1 hm).2
    apply Node.taken_of_ne
    rintro rfl
    exact hout ((h.mem_ids_removed hu).2 .refl)

theorem removed_of_remove (h : t.Linked fun _ => False) {id : String}
    (hu : t.remove id = .ok (u, removed)) : t.Removed u id removed := by
  obtain ⟨htabs, hgone, _⟩ := h.node?_remove hu
  obtain ⟨before, n, rest, after, hwalk, hn, hvisits, hremoved, hleft⟩ := h.block_remove hu
  constructor
  case block => exact ⟨before, n, rest, after, hwalk, hn, hvisits, hremoved, hleft⟩
  case mem_ids => exact fun x => h.mem_ids_removed hu
  case once =>
    have hnodup := h.nodup_walk
    rw [hwalk, List.map_append, List.map_append] at hnodup
    rw [hremoved]
    exact hnodup.of_append_left.of_append_right
  case gone => exact fun x hb => Entries.has_eq_false_iff.2 (hgone x hb)
  case holder => exact fun x hl => h.node?_kept hu (h.not_below_of_lists hl)
  case others =>
    intro x hb hl
    rw [h.node?_kept hu hb]
    cases hx : t.node? x with
    | none => rfl
    | some m => rw [Option.map_some, Node.without_of_not_mem fun hc => hl ⟨m, hx, hc⟩]
  case tabs => exact htabs
  case defaultTabLabel => exact (remove_keeps hu).1
  case lineBreaks => exact (remove_keeps hu).2
  case consistent =>
    exact ((h.remove hu).congr fun x => ⟨And.left, False.elim⟩).toConsistent

end Linked

/-- A removal of any node succeeds. It takes out a block of the walk that starts with the node, and
leaves everything else where it was. -/
theorem Consistent.remove_subtree {t : FormTree} (h : t.Consistent) {id : String}
    (hid : t.has id = true) :
    ∃ u removed, t.remove id = .ok (u, removed) ∧ t.Removed u id removed := by
  obtain ⟨u, removed, hu⟩ : ∃ u removed, t.remove id = .ok (u, removed) := by
    rw [FormTree.remove, if_pos hid]
    exact ⟨_, _, rfl⟩
  exact ⟨u, removed, hu, h.linked.removed_of_remove hu⟩

/-- A palette goes with the field in it, and the fields around it stay. -/
theorem remove_subtree_of_palette :
    let t := (((((empty "general").run (.field "a" [] [])).1.run (.palette "p" [])).1.run
      (.field "b" [] [.move "bottom:palette:p"])).1.run (.field "c" [] [])).1
    ∃ u removed, t.remove "palette:p" = .ok (u, removed) ∧ t.Removed u "palette:p" removed ∧
      removed.map Node.id = ["palette:p", "b"] ∧ u.walk.map Node.id = ["0", "a", "c"] := by
  intro t
  have ht : t.Reachable := .run (.run (.run (.run (.empty _) trivial) trivial) trivial) trivial
  have hid : t.has "palette:p" = true := rfl
  obtain ⟨u, removed, hu, hwalk⟩ : ∃ u removed, t.remove "palette:p" = .ok (u, removed) ∧
      removed.map Node.id = ["palette:p", "b"] ∧ u.walk.map Node.id = ["0", "a", "c"] :=
    ⟨_, _, rfl, rfl, rfl⟩
  obtain ⟨u', removed', hu', hremoved⟩ := ht.consistent.remove_subtree hid
  cases hu.symm.trans hu'
  exact ⟨u, removed, hu, hremoved, hwalk⟩

end FormTree

end FormLayout
