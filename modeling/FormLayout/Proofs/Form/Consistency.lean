import FormLayout.Proofs.Layout.Sound
/-!
The links of every reachable tree are consistent. Trees come about by edits and by reading layouts,
and both keep the links also when they fail.
-/

namespace FormLayout
set_option autoImplicit true

namespace FormTree

/-- Trees that come about from an empty one. -/
inductive Reachable : FormTree → Prop where
  | empty (label : String) : Reachable (FormTree.empty label)
  | run {t : FormTree} {e : TreeEdit} : Reachable t → e.Anchored t → Reachable (t.run e).1
  | read (layout : Layout) (columns : Columns) (parent : Option (String → Option Fields)) :
    Reachable t → Reachable (layout.read t columns parent).tree

/-- The list of tabs, the lists of children, the parents and the nodes by id say the same. -/
structure Consistent (t : FormTree) : Prop where
  distinct : t.nodes.names.Nodup
  keyed : ∀ id n, t.node? id = some n → n.id = id
  palette_keyed : ∀ id n name, t.node? id = some n → n.content = .palette name →
    id = paletteId name
  tab_listed_once : ∀ id n, t.node? id = some n → n.kind = .tab →
    t.tabs.count id = 1 ∧ n.parent = none
  tab_of_listed : ∀ id ∈ t.tabs, ∃ n, t.node? id = some n ∧ n.kind = .tab
  held_once : ∀ id n, t.node? id = some n → n.kind ≠ .tab → ∃ p m, n.parent = some p ∧
    t.node? p = some m ∧ m.children.count id = 1 ∧ m.kind.canContain n.kind = true ∧
    ∀ q k, t.node? q = some k → id ∈ k.children → q = p
  child_points_back : ∀ id n c, t.node? id = some n → c ∈ n.children →
    ∃ m, t.node? c = some m ∧ m.parent = some id
  tab_of_node : t.nodes ≠ [] → t.tabs ≠ []
  walk_perm : t.walk.Perm (t.nodes.map Prod.snd)
  length_walk : t.walk.length = t.size

variable {t : FormTree}

theorem Linked.toConsistent (h : t.Linked fun _ => False) : t.Consistent where
  distinct := h.distinct
  keyed _ _ hn := h.keyed hn
  palette_keyed _ _ _ hn hp := h.palette_keyed hn (Node.palette?_eq_some_iff.2 hp)
  tab_listed_once id n hn hk :=
    ⟨List.count_eq_one_of_mem h.tabs_nodup (h.mem_tabs.2 ⟨not_false, n, hn, hk⟩),
      (h.rooted hn).2 (.inr hk)⟩
  tab_of_listed _ hm := (h.mem_tabs.1 hm).2
  held_once id n hn hk := by
    cases hp : n.parent with
    | none => exact absurd (((h.rooted hn).1 hp).resolve_left not_false) hk
    | some p =>
      obtain ⟨m, hm, hc, hmem⟩ := h.held hn hp
      refine ⟨p, m, rfl, hm, List.count_eq_one_of_mem (h.children_nodup hm) hmem, hc, ?_⟩
      intro q k hq hmem'
      exact h.lists_unique ⟨k, hq, hmem'⟩ ⟨m, hm, hmem⟩
  child_points_back _ _ _ hn hc := h.listed hn hc
  tab_of_node hn ht := hn (h.nodes_eq_nil ht)
  walk_perm := h.walk_perm
  length_walk := by rw [h.walk_perm.length_eq, List.length_map, size]

theorem Consistent.linked (h : t.Consistent) : t.Linked fun _ => False := by
  have hroot {id n} (hn : t.node? id = some n) : n.parent = none ↔ n.kind = .tab := by
    constructor
    · intro hp
      by_contra hk
      obtain ⟨p, _, hpn, _⟩ := h.held_once id n hn hk
      cases hp.symm.trans hpn
    · exact fun hk => (h.tab_listed_once id n hn hk).2
  have hheld {id n p} (hn : t.node? id = some n) (hp : n.parent = some p) : ∃ m,
      t.node? p = some m ∧ m.kind.canContain n.kind = true ∧ m.children.count id = 1 := by
    have hk : n.kind ≠ .tab := fun hk => by cases hp.symm.trans ((hroot hn).2 hk)
    obtain ⟨q, m, hq, hm, hone, hc, _⟩ := h.held_once id n hn hk
    cases hp.symm.trans hq
    exact ⟨m, hm, hc, hone⟩
  constructor
  case distinct => exact h.distinct
  case keyed => exact fun hn => h.keyed _ _ hn
  case palette_keyed => exact fun hn hp => h.palette_keyed _ _ _ hn (Node.palette?_eq_some_iff.1 hp)
  case tabs_nodup =>
    apply List.nodup_iff_count_le_one.2
    intro id
    by_cases hm : id ∈ t.tabs
    · obtain ⟨n, hn, hk⟩ := h.tab_of_listed id hm
      exact Nat.le_of_eq (h.tab_listed_once id n hn hk).1
    · rw [List.count_eq_zero_of_not_mem hm]
      exact Nat.zero_le 1
  case mem_tabs =>
    intro id
    constructor
    · exact fun hm => ⟨not_false, h.tab_of_listed id hm⟩
    · rintro ⟨_, n, hn, hk⟩
      apply List.count_pos_iff.1
      rw [(h.tab_listed_once id n hn hk).1]
      exact Nat.one_pos
  case loose_node => exact False.elim
  case rooted => exact fun hn => (hroot hn).trans (false_or _).symm.to_iff
  case held =>
    intro id n p hn hp
    obtain ⟨m, hm, hc, hone⟩ := hheld hn hp
    exact ⟨m, hm, hc, List.count_pos_iff.1 (hone ▸ Nat.one_pos)⟩
  case children_nodup =>
    intro id n hn
    apply List.nodup_iff_count_le_one.2
    intro c
    by_cases hc : c ∈ n.children
    · obtain ⟨m, hm, hp⟩ := h.child_points_back id n c hn hc
      obtain ⟨k, hk, _, hone⟩ := hheld hm hp
      cases hn.symm.trans hk
      exact Nat.le_of_eq hone
    · rw [List.count_eq_zero_of_not_mem hc]
      exact Nat.zero_le 1
  case listed => exact fun hn hc => h.child_points_back _ _ _ hn hc

theorem Reachable.linked (h : t.Reachable) : t.Linked fun _ => False := by
  induction h with
  | empty label => exact Linked.empty label
  | run _ ha ih => exact ih.run ha
  | read layout columns parent _ _ =>
    obtain ⟨r, htree, _, hr, _⟩ := Layout.read_sound layout _ columns parent
    rw [htree]
    exact hr.linked

theorem Reachable.consistent (h : t.Reachable) : t.Consistent := h.linked.toConsistent

/-- A field, a line break after it, and a move that fails. -/
theorem consistent_after_failed_move :
    ((((empty "general").run (.field "a" [] [])).1.run (.lineBreak "after:a" [])).1.run
      (.move "b" "top:a")).1.Consistent := by
  refine Reachable.consistent (.run (.run (.run (.empty _) trivial) ?_) trivial)
  intro p hp id hid
  have hparse : Position.parse "after:a" = .ok (.after "a") := rfl
  rw [hparse] at hp
  cases hp
  cases hid
  rfl

end FormTree

end FormLayout
