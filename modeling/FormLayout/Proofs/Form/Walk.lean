import FormLayout.Proofs.Form.Moves
import Mathlib.Logic.Relation
/-!
What stands below a node of a linked tree. The walk lists every node exactly once, and removing a
node takes out just what stands below it.
-/

namespace FormLayout.FormTree
set_option autoImplicit true

open Relation

/-- A node lists another one among its children. -/
def Lists (t : FormTree) (x y : String) : Prop := ∃ n, t.node? x = some n ∧ y ∈ n.children

/-- A node stands below another one, or is the same. -/
def Below (t : FormTree) : String → String → Prop := ReflTransGen t.Lists

namespace Linked

variable {t u : FormTree} {loose : String → Prop}

theorem lists_iff (h : t.Linked loose) (hy : t.node? y = some m) :
    t.Lists x y ↔ m.parent = some x := by
  constructor
  · rintro ⟨n, hn, hc⟩
    obtain ⟨k, hk, hp⟩ := h.listed hn hc
    cases hy.symm.trans hk
    exact hp
  · intro hp
    obtain ⟨n, hn, _, hc⟩ := h.held hy hp
    exact ⟨n, hn, hc⟩

theorem node_of_lists (h : t.Linked loose) (hl : t.Lists x y) :
    ∃ n m, t.node? x = some n ∧ t.node? y = some m ∧ n.kind.canContain m.kind = true := by
  obtain ⟨n, hn, hc⟩ := hl
  obtain ⟨m, hm, hp⟩ := h.listed hn hc
  obtain ⟨k, hk, hkm, _⟩ := h.held hm hp
  cases hn.symm.trans hk
  exact ⟨n, m, hn, hm, hkm⟩

theorem lists_unique (h : t.Linked loose) (hx : t.Lists x z) (hy : t.Lists y z) : x = y := by
  obtain ⟨_, m, _, hm, _⟩ := h.node_of_lists hx
  exact Option.some.inj (((h.lists_iff hm).1 hx).symm.trans ((h.lists_iff hm).1 hy))

theorem node_of_below (h : t.Linked loose) (hx : t.node? x = some n) (hb : t.Below x y) :
    ∃ m, t.node? y = some m ∧ m.kind.height ≤ n.kind.height := by
  induction hb with
  | refl => exact ⟨n, hx, Nat.le_refl _⟩
  | tail _ hl ih =>
    obtain ⟨m, hm, hle⟩ := ih
    obtain ⟨m', k, hm', hk, hc⟩ := h.node_of_lists hl
    cases hm.symm.trans hm'
    exact ⟨k, hk, Nat.le_trans (Nat.le_of_lt (NodeKind.height_lt_of_canContain hc)) hle⟩

theorem not_below_of_lists (h : t.Linked loose) (hl : t.Lists x y) : ¬ t.Below y x := by
  intro hb
  obtain ⟨n, m, hn, hm, hc⟩ := h.node_of_lists hl
  obtain ⟨n', hn', hle⟩ := h.node_of_below hm hb
  cases hn.symm.trans hn'
  exact Nat.not_lt.2 hle (NodeKind.height_lt_of_canContain hc)

/-- Nodes above the same node stand above one another. -/
theorem below_total (h : t.Linked loose) (hx : t.Below x z) (hy : t.Below y z) :
    t.Below x y ∨ t.Below y x := by
  have hu : Relator.RightUnique (Function.swap t.Lists) := fun _ _ _ ha hb => h.lists_unique ha hb
  rcases ReflTransGen.total_of_right_unique hu hx.swap hy.swap with hb | hb
  · exact .inr hb.swap
  · exact .inl hb.swap

theorem below_siblings (h : t.Linked loose) (ha : t.Lists p a) (hb : t.Lists p b)
    (hx : t.Below a x) (hy : t.Below b x) : a = b := by
  have hkey {a b} (ha : t.Lists p a) (hb : t.Lists p b) (hab : t.Below a b) : a = b := by
    rcases ReflTransGen.cases_tail hab with he | ⟨q, haq, hqb⟩
    · exact he.symm
    · cases h.lists_unique hqb hb
      exact absurd haq (h.not_below_of_lists ha)
  rcases h.below_total hx hy with hab | hba
  · exact hkey ha hb hab
  · exact (hkey hb ha hba).symm

theorem not_lists_tab (h : t.Linked loose) (hb : b ∈ t.tabs) : ¬ t.Lists x b := by
  intro hl
  obtain ⟨_, m, _, hm, hc⟩ := h.node_of_lists hl
  exact NodeKind.ne_tab_of_canContain hc (by
    obtain ⟨_, k, hk, hkt⟩ := h.mem_tabs.1 hb
    cases hm.symm.trans hk
    exact hkt)

theorem below_tabs (h : t.Linked loose) (ha : a ∈ t.tabs) (hb : b ∈ t.tabs)
    (hx : t.Below a x) (hy : t.Below b x) : a = b := by
  rcases h.below_total hx hy with hab | hba
  · rcases ReflTransGen.cases_tail hab with he | ⟨q, _, hq⟩
    · exact he.symm
    · exact absurd hq (h.not_lists_tab hb)
  · rcases ReflTransGen.cases_tail hba with he | ⟨q, _, hq⟩
    · exact he
    · exact absurd hq (h.not_lists_tab ha)

theorem mem_subtree (h : t.Linked loose) {id : String} (hn : t.node? id = some n)
    (hd : n.kind.height ≤ depth) :
    m ∈ t.subtree depth id ↔ ∃ x, t.Below id x ∧ t.node? x = some m := by
  induction depth generalizing id n with
  | zero => cases hk : n.kind <;> simp [hk, NodeKind.height] at hd
  | succ depth ih =>
    have hchild {c} (hc : c ∈ n.children) :
        m ∈ t.subtree depth c ↔ ∃ x, t.Below c x ∧ t.node? x = some m := by
      obtain ⟨n', k, hn', hk, hck⟩ := h.node_of_lists ⟨n, hn, hc⟩
      cases hn.symm.trans hn'
      have hlt := NodeKind.height_lt_of_canContain hck
      exact ih hk (by omega)
    rw [subtree, hn, List.mem_cons, List.mem_flatMap]
    constructor
    · rintro (rfl | ⟨c, hc, hm⟩)
      · exact ⟨id, .refl, hn⟩
      · obtain ⟨x, hx, hxm⟩ := (hchild hc).1 hm
        exact ⟨x, .head ⟨n, hn, hc⟩ hx, hxm⟩
    · rintro ⟨x, hx, hxm⟩
      rcases ReflTransGen.cases_head hx with rfl | ⟨c, ⟨n', hn', hc⟩, hcx⟩
      · cases hn.symm.trans hxm
        exact .inl rfl
      · cases hn.symm.trans hn'
        exact .inr ⟨c, hc, (hchild hc).2 ⟨x, hcx, hxm⟩⟩

theorem height_le_levels (k : NodeKind) : k.height ≤ levels := by
  cases k <;> decide

theorem mem_subtree_levels (h : t.Linked loose) {id : String} (hn : t.node? id = some n) :
    m ∈ t.subtree levels id ↔ ∃ x, t.Below id x ∧ t.node? x = some m :=
  h.mem_subtree hn (height_le_levels _)

theorem below_of_mem_subtree (h : t.Linked loose) {id : String} (hn : t.node? id = some n)
    (hd : n.kind.height ≤ depth) (hm : m ∈ t.subtree depth id) : t.Below id m.id := by
  obtain ⟨x, hx, hxm⟩ := (h.mem_subtree hn hd).1 hm
  exact (h.keyed hxm) ▸ hx

theorem nodup_subtree (h : t.Linked loose) {id : String} (hn : t.node? id = some n)
    (hd : n.kind.height ≤ depth) : ((t.subtree depth id).map Node.id).Nodup := by
  induction depth generalizing id n with
  | zero => exact List.nodup_nil
  | succ depth ih =>
    have hchild {c} (hc : c ∈ n.children) :
        ∃ k, t.node? c = some k ∧ k.kind.height ≤ depth := by
      obtain ⟨n', k, hn', hk, hck⟩ := h.node_of_lists ⟨n, hn, hc⟩
      cases hn.symm.trans hn'
      have hlt := NodeKind.height_lt_of_canContain hck
      exact ⟨k, hk, by omega⟩
    have hbelow {c x} (hc : c ∈ n.children) (hx : x ∈ (t.subtree depth c).map Node.id) :
        t.Below c x := by
      obtain ⟨k, hk, hkd⟩ := hchild hc
      obtain ⟨m, hm, rfl⟩ := List.mem_map.1 hx
      exact h.below_of_mem_subtree hk hkd hm
    rw [subtree, hn, List.map_cons, List.map_flatMap, List.nodup_cons, List.nodup_flatMap]
    refine ⟨?_, ?_, ?_⟩
    · rw [List.mem_flatMap, h.keyed hn]
      rintro ⟨c, hc, hx⟩
      exact h.not_below_of_lists ⟨n, hn, hc⟩ (hbelow hc hx)
    · intro c hc
      obtain ⟨k, hk, hkd⟩ := hchild hc
      exact ih hk hkd
    · refine (h.children_nodup hn).imp_of_mem ?_
      intro a b ha hb hne x hxa hxb
      exact hne (h.below_siblings ⟨n, hn, ha⟩ ⟨n, hn, hb⟩ (hbelow ha hxa) (hbelow hb hxb))

theorem nodup_walk (h : t.Linked loose) : (t.walk.map Node.id).Nodup := by
  have hbelow {a x} (ha : a ∈ t.tabs) (hx : x ∈ (t.subtree levels a).map Node.id) :
      t.Below a x := by
    obtain ⟨_, n, hn, _⟩ := h.mem_tabs.1 ha
    obtain ⟨m, hm, rfl⟩ := List.mem_map.1 hx
    exact h.below_of_mem_subtree hn (height_le_levels _) hm
  rw [walk, List.map_flatMap, List.nodup_flatMap]
  constructor
  · intro a ha
    obtain ⟨_, n, hn, _⟩ := h.mem_tabs.1 ha
    exact h.nodup_subtree hn (height_le_levels _)
  · refine h.tabs_nodup.imp_of_mem ?_
    intro a b ha hb hne x hxa hxb
    exact hne (h.below_tabs ha hb (hbelow ha hxa) (hbelow hb hxb))

theorem mem_walk (h : t.Linked loose) :
    m ∈ t.walk ↔ ∃ tab x, tab ∈ t.tabs ∧ t.Below tab x ∧ t.node? x = some m := by
  rw [walk, List.mem_flatMap]
  constructor
  · rintro ⟨tab, ht, hm⟩
    obtain ⟨_, n, hn, _⟩ := h.mem_tabs.1 ht
    obtain ⟨x, hx, hxm⟩ := (h.mem_subtree_levels hn).1 hm
    exact ⟨tab, x, ht, hx, hxm⟩
  · rintro ⟨tab, x, ht, hx, hxm⟩
    obtain ⟨_, n, hn, _⟩ := h.mem_tabs.1 ht
    exact ⟨tab, ht, (h.mem_subtree_levels hn).2 ⟨x, hx, hxm⟩⟩

end Linked

/-- Every node that is not loose stands below a tab, as what holds it is no line break. -/
theorem Joined.below_tab {t : FormTree} {loose : String → Prop} (h : t.Joined loose)
    (hx : t.node? x = some n) (hl : ¬ loose x) : ∃ tab ∈ t.tabs, t.Below tab x := by
  induction hd : levels - n.kind.height using Nat.strongRecOn generalizing x n with
  | ind d ih =>
    cases hp : n.parent with
    | none =>
      have hk : n.kind = .tab := ((h.rooted hx).1 hp).resolve_left hl
      exact ⟨x, h.mem_tabs.2 ⟨hl, n, hx, hk⟩, .refl⟩
    | some p =>
      obtain ⟨m, hm, hc, hmem⟩ := h.held hx hp
      have hlt := NodeKind.height_lt_of_canContain hc
      have hle := Linked.height_le_levels m.kind
      have hlp : ¬ loose p := by
        intro hlp
        rw [h.stray hlp hm] at hc
        cases hc
      obtain ⟨tab, ht, hb⟩ := ih (levels - m.kind.height) (by omega) hm hlp rfl
      exact ⟨tab, ht, hb.tail ⟨m, hm, hmem⟩⟩

namespace Linked

variable {t u : FormTree} {loose : String → Prop}

theorem nodes_eq_nil (h : t.Linked fun _ => False) (ht : t.tabs = []) : t.nodes = [] := by
  cases hn : t.nodes with
  | nil => rfl
  | cons e rest =>
    have hx : t.node? e.1 = some e.2 := by
      rw [node?, hn]
      exact if_pos rfl
    obtain ⟨tab, hm, _⟩ := h.joined.below_tab hx id
    rw [ht] at hm
    cases hm

theorem node?_of_nil (h : t.Linked fun _ => False) (ht : t.tabs = []) (x : String) :
    t.node? x = none := by
  rw [node?, h.nodes_eq_nil ht]
  rfl

/-- The first tab has the number zero. -/
theorem tabs_ensureTab_of_nil (h : t.Linked fun _ => False) (ht : t.tabs = []) :
    t.ensureTab.1.tabs = [toString 0] := by
  have hid : t.nextTabId = toString 0 := nextTabId_of_nil ht (h.node?_of_nil ht _)
  rw [ensureTab_of_nil ht, tabs_update, h.tabs_attachTab t.node?_nextTabId, ht, hid]
  rfl

theorem walk_perm (h : t.Linked fun _ => False) : t.walk.Perm (t.nodes.map Prod.snd) := by
  have hids : (t.nodes.map Prod.snd).map Node.id = t.nodes.names := by
    rw [List.map_map]
    apply List.map_congr_left
    intro e he
    exact h.keyed (Entries.get?_of_mem h.distinct he)
  have hnodes : ((t.nodes.map Prod.snd).map Node.id).Nodup := hids ▸ h.distinct
  rw [List.perm_ext_iff_of_nodup h.nodup_walk.of_map hnodes.of_map]
  intro m
  rw [h.mem_walk, List.mem_map]
  constructor
  · rintro ⟨_, x, _, _, hx⟩
    exact ⟨(x, m), Entries.mem_of_get? hx, rfl⟩
  · rintro ⟨⟨x, n⟩, he, rfl⟩
    have hx : t.node? x = some n := Entries.get?_of_mem h.distinct he
    obtain ⟨tab, ht, hb⟩ := h.joined.below_tab hx id
    exact ⟨tab, x, ht, hb, hx⟩

/-- A detached node stands above the same nodes as before. -/
theorem subtree_detach (h : t.Linked loose) {id x : String} (hb : t.Below id x) (depth : Nat) :
    (t.detach id).subtree depth x = (t.subtree depth x).map (Node.taken id) := by
  induction depth generalizing x with
  | zero => rfl
  | succ depth ih =>
    rw [subtree, subtree, h.node?_detach]
    cases hx : t.node? x with
    | none => rfl
    | some n =>
      have hself : id ∉ n.children := fun hc => h.not_below_of_lists ⟨n, hx, hc⟩ hb
      rw [Option.map_some]
      dsimp only
      rw [Node.children_taken, filter_ne_eq_self hself, List.map_cons, List.map_flatMap]
      congr 1
      apply List.flatMap_congr
      intro c hc
      exact ih (hb.tail ⟨n, hx, hc⟩)

theorem mem_removed (h : t.Linked loose) {id : String} (hn : t.node? id = some n) :
    x ∈ ((t.detach id).subtree levels id).map Node.id ↔ t.Below id x := by
  have hids : (Node.id ∘ Node.taken id) = Node.id := rfl
  rw [h.subtree_detach .refl, List.map_map, hids]
  constructor
  · intro hx
    obtain ⟨m, hm, rfl⟩ := List.mem_map.1 hx
    exact h.below_of_mem_subtree hn (height_le_levels _) hm
  · intro hb
    obtain ⟨m, hm, _⟩ := h.node_of_below hn hb
    exact List.mem_map.2 ⟨m, (h.mem_subtree_levels hn).2 ⟨x, hb, hm⟩, h.keyed hm⟩

theorem remove_cases {t u : FormTree} {id : String} (hu : t.remove id = .ok (u, removed)) :
    t.has id = true ∧ removed = (t.detach id).subtree levels id ∧
      u = { t.detach id with
        nodes := (removed.map Node.id).foldl Entries.erase (t.detach id).nodes } := by
  rw [remove] at hu
  split at hu
  · next hid =>
    cases hu
    exact ⟨hid, rfl, by rw [List.foldl_map]⟩
  · cases hu

/-- After a removal exactly the nodes below the removed one are gone. -/
theorem node?_remove (h : t.Linked loose) {id : String} (hu : t.remove id = .ok (u, removed)) :
    u.tabs = t.tabs.filter (· ≠ id) ∧ (∀ x, t.Below id x → u.node? x = none) ∧
      ∀ x, ¬ t.Below id x → u.node? x = (t.node? x).map (Node.taken id) := by
  obtain ⟨hid, rfl, rfl⟩ := remove_cases hu
  obtain ⟨n, hn⟩ := has_iff.1 hid
  have hnode (x : String) : Entries.get? ((((t.detach id).subtree levels id).map Node.id).foldl
      Entries.erase (t.detach id).nodes) x = _ := Entries.get?_eraseAll _ _ x
  refine ⟨h.tabs_detach id, fun x hb => ?_, fun x hb => ?_⟩
  · exact (hnode x).trans (if_pos ((h.mem_removed hn).2 hb))
  · refine (hnode x).trans ?_
    rw [if_neg (fun hx => hb ((h.mem_removed hn).1 hx))]
    exact h.node?_detach id x

/-- Nodes may be dropped with all nodes that they list and with those that list them. -/
theorem erased (h : t.Linked loose) {gone : String → Prop} (hdistinct : u.nodes.Distinct)
    (htabs : u.tabs = t.tabs) (hgone : ∀ x, gone x → u.node? x = none)
    (hkept : ∀ x, ¬ gone x → u.node? x = t.node? x) (htab : ∀ x ∈ t.tabs, ¬ gone x)
    (hlists : ∀ p x, t.Lists p x → (gone p ↔ gone x)) :
    u.Linked fun x => loose x ∧ ¬ gone x := by
  have hback {x m} (hx : u.node? x = some m) : ¬ gone x ∧ t.node? x = some m := by
    have hk : ¬ gone x := fun hg => by cases hx.symm.trans (hgone x hg)
    exact ⟨hk, (hkept x hk).symm.trans hx⟩
  have hforth {x m} (hk : ¬ gone x) (hx : t.node? x = some m) : u.node? x = some m :=
    (hkept x hk).trans hx
  constructor
  case distinct => exact hdistinct
  case keyed => exact fun hx => h.keyed (hback hx).2
  case palette_keyed => exact fun hx hp => h.palette_keyed (hback hx).2 hp
  case tabs_nodup => exact htabs ▸ h.tabs_nodup
  case mem_tabs =>
    intro x
    rw [htabs]
    constructor
    · intro hx
      obtain ⟨hl, m, hm, hk⟩ := h.mem_tabs.1 hx
      exact ⟨fun hlx => hl hlx.1, m, hforth (htab x hx) hm, hk⟩
    · rintro ⟨hl, m, hm, hk⟩
      obtain ⟨hx, hm⟩ := hback hm
      exact h.mem_tabs.2 ⟨fun hlx => hl ⟨hlx, hx⟩, m, hm, hk⟩
  case loose_node =>
    rintro x ⟨hl, hk⟩
    obtain ⟨m, hm⟩ := h.loose_node hl
    exact ⟨m, hforth hk hm⟩
  case rooted =>
    intro x m hx
    obtain ⟨hk, hm⟩ := hback hx
    rw [h.rooted hm, and_iff_left hk]
  case held =>
    intro x m p hx hp
    obtain ⟨hk, hm⟩ := hback hx
    obtain ⟨q, hq, hc, hmem⟩ := h.held hm hp
    exact ⟨q, hforth (fun hg => hk ((hlists p x ⟨q, hq, hmem⟩).1 hg)) hq, hc, hmem⟩
  case children_nodup => exact fun hx => h.children_nodup (hback hx).2
  case listed =>
    intro x m c hx hc
    obtain ⟨hk, hm⟩ := hback hx
    obtain ⟨q, hq, hp⟩ := h.listed hm hc
    exact ⟨q, hforth (fun hg => hk ((hlists x c ⟨m, hm, hc⟩).2 hg)) hq, hp⟩

theorem lists_detach_iff (h : t.Linked loose) (id : String) :
    (t.detach id).Lists x y ↔ t.Lists x y ∧ y ≠ id := by
  rw [Lists, h.node?_detach]
  constructor
  · rintro ⟨_, hx, hy⟩
    obtain ⟨n, hn, rfl⟩ := Option.map_eq_some_iff.1 hx
    obtain ⟨hy, hne⟩ := List.mem_filter.1 hy
    exact ⟨⟨n, hn, hy⟩, of_decide_eq_true hne⟩
  · rintro ⟨⟨n, hn, hy⟩, hne⟩
    exact ⟨n.taken id, by rw [hn, Option.map_some], List.mem_filter.2 ⟨hy, decide_eq_true hne⟩⟩

/-- What lists a node below another one stands there as well, the other one apart. -/
theorem below_of_lists (h : t.Linked loose) (hl : t.Lists x y) (hne : y ≠ z) (hb : t.Below z y) :
    t.Below z x := by
  rcases ReflTransGen.cases_tail hb with he | ⟨p, hp, hpy⟩
  · exact absurd he hne
  · rwa [h.lists_unique hl hpy]

theorem remove (h : t.Linked loose) {id : String} (hu : t.remove id = .ok (u, removed)) :
    u.Linked fun x => loose x ∧ ¬ t.Below id x := by
  obtain ⟨htabs, hgone, hkept⟩ := h.node?_remove hu
  obtain ⟨hid, -, he⟩ := remove_cases hu
  obtain ⟨n, hn⟩ := has_iff.1 hid
  have hdetached := h.detach hn
  have hdistinct : u.nodes.Distinct := he ▸ hdetached.distinct.eraseAll _
  have hsame : u.tabs = (t.detach id).tabs := by rw [he]
  refine (hdetached.erased hdistinct hsame hgone ?_ ?_ ?_).congr fun x => ?_
  · intro x hx
    rw [hkept x hx, h.node?_detach]
  · intro x hx hb
    rw [h.tabs_detach, List.mem_filter] at hx
    rcases ReflTransGen.cases_tail hb with he | ⟨p, _, hp⟩
    · exact of_decide_eq_true hx.2 he
    · exact h.not_lists_tab hx.1 hp
  · intro p x hl
    obtain ⟨hl, hne⟩ := (h.lists_detach_iff id).1 hl
    exact ⟨fun hb => hb.tail hl, h.below_of_lists hl hne⟩
  · constructor
    · rintro ⟨hl, hb⟩
      exact ⟨hl.resolve_left fun he => hb (he ▸ .refl), hb⟩
    · exact And.imp_left .inr

end Linked

theorem remove_keeps {t u : FormTree} {id : String} (hu : t.remove id = .ok (u, removed)) :
    u.defaultTabLabel = t.defaultTabLabel ∧ u.lineBreaks = t.lineBreaks := by
  obtain ⟨-, -, rfl⟩ := Linked.remove_cases hu
  dsimp only
  rw [detach]
  split <;> exact ⟨rfl, rfl⟩

end FormLayout.FormTree
