import FormLayout.Form.Tree
import FormLayout.Proofs.Entries
/-!
The links of form trees: which node stands in which list, and how each operation on a tree changes
lists and parents. Nodes under way stand in no list yet; they are called loose.
-/

namespace FormLayout
set_option autoImplicit true

theorem Anchor.insertBefore_perm (sibling id : String) (l : List String) :
    (Anchor.insertBefore sibling id l).Perm (id :: l) := by
  induction l with
  | nil => exact .refl _
  | cons x rest ih =>
    rw [Anchor.insertBefore]
    split
    · exact .refl _
    · exact (ih.cons x).trans (.swap id x rest)

theorem Anchor.insertAfter_perm (sibling id : String) (l : List String) :
    (Anchor.insertAfter sibling id l).Perm (id :: l) := by
  induction l with
  | nil => exact .refl _
  | cons x rest ih =>
    rw [Anchor.insertAfter]
    split
    · exact .swap id x rest
    · exact (ih.cons x).trans (.swap id x rest)

theorem Anchor.insert_perm (a : Anchor) (id : String) (l : List String) :
    (a.insert id l).Perm (id :: l) := by
  cases a with
  | first => exact .refl _
  | last => exact List.perm_append_comm
  | before sibling => exact insertBefore_perm sibling id l
  | after sibling => exact insertAfter_perm sibling id l

theorem Anchor.nodup_insert {a : Anchor} {id : String} (h : l.Nodup) (hid : id ∉ l) :
    (a.insert id l).Nodup :=
  (a.insert_perm id l).nodup_iff.2 (List.nodup_cons.2 ⟨hid, h⟩)

theorem filter_ne_eq_self {l : List String} {id : String} (h : id ∉ l) : l.filter (· ≠ id) = l :=
  List.filter_eq_self.2 fun x hx => by simpa using fun he : x = id => h (he ▸ hx)

/-- How high a kind stands above the leaves. -/
def NodeKind.height : NodeKind → Nat
  | .tab => 3
  | .palette => 2
  | .field | .lineBreak => 1

theorem NodeKind.height_lt_of_canContain {k c : NodeKind} (h : k.canContain c = true) :
    c.height < k.height := by
  cases k <;> cases c <;> simp_all [canContain, height]

theorem NodeKind.ne_tab_of_canContain {k c : NodeKind} (h : k.canContain c = true) :
    c ≠ .tab := by
  cases k <;> cases c <;> simp_all [canContain]

namespace Node

/-- A node after another one was taken out of all lists. -/
def taken (id : String) (n : Node) : Node :=
  { n with
    parent := if n.id = id then none else n.parent
    children := n.children.filter (· ≠ id) }

theorem taken_of_not_mem {id : String} {n : Node} (h : id ∉ n.children) :
    n.taken id = { n with parent := if n.id = id then none else n.parent } := by
  rw [taken, filter_ne_eq_self h]

/-- A node after another one was put into a container. -/
def held (id : String) (container : Option String) (a : Anchor) (n : Node) : Node :=
  { n with
    parent := if n.id = id then container else n.parent
    children := if container = some n.id then a.insert id n.children else n.children }

@[simp] theorem id_taken (id : String) (n : Node) : (n.taken id).id = n.id := rfl

@[simp] theorem kind_taken (id : String) (n : Node) : (n.taken id).kind = n.kind := rfl

theorem parent_taken (id : String) (n : Node) :
    (n.taken id).parent = if n.id = id then none else n.parent := rfl

theorem children_taken (id : String) (n : Node) :
    (n.taken id).children = n.children.filter (· ≠ id) := rfl

theorem parent_held (id : String) (c : Option String) (a : Anchor) (n : Node) :
    (n.held id c a).parent = if n.id = id then c else n.parent := rfl

theorem children_held (id : String) (c : Option String) (a : Anchor) (n : Node) :
    (n.held id c a).children = if c = some n.id then a.insert id n.children else n.children := rfl

theorem held_of_ne {id : String} {c : Option String} {n : Node} (hi : n.id ≠ id)
    (hc : c ≠ some n.id) (a : Anchor) : n.held id c a = n := by
  rw [held, if_neg hi, if_neg hc]

/-- A node after another one was moved to a place. -/
def moved (id : String) (c : Option String) (a : Anchor) (n : Node) : Node :=
  (n.taken id).held id c a

@[simp] theorem kind_moved (id : String) (c : Option String) (a : Anchor) (n : Node) :
    (n.moved id c a).kind = n.kind := rfl

/-- An edit that leaves a node where it is and what it is. -/
structure KeepsLinks (f : Node → Node) : Prop where
  id : ∀ n, (f n).id = n.id
  parent : ∀ n, (f n).parent = n.parent
  children : ∀ n, (f n).children = n.children
  kind : ∀ n, (f n).kind = n.kind
  palette? : ∀ n, (f n).palette? = n.palette?

theorem keepsLinks_slots (slots : Slots) : KeepsLinks fun n => { n with slots } :=
  ⟨fun _ => rfl, fun _ => rfl, fun _ => rfl, fun _ => rfl, fun _ => rfl⟩

theorem setLabel_eq (n : Node) (label : Option String) :
    ∃ slots, n.setLabel label = { n with slots } := by
  cases label with
  | some label => exact ⟨_, rfl⟩
  | none =>
    rw [setLabel]
    split
    · exact ⟨n.slots, rfl⟩
    · exact ⟨_, rfl⟩

theorem keepsLinks_setLabel (label : Option String) : KeepsLinks fun n => n.setLabel label := by
  constructor <;> intro n <;> obtain ⟨slots, h⟩ := n.setLabel_eq label <;> simp only [h] <;> rfl

theorem keepsLinks_configure (f : Fields → Fields) : KeepsLinks fun n => n.configure f := by
  constructor <;> intro n <;> cases h : n.content <;>
    simp [configure, h, kind, Content.kind, Node.palette?]

theorem palette?_eq_some_iff {n : Node} : n.palette? = some name ↔ n.content = .palette name := by
  cases h : n.content <;> simp [palette?, h]

theorem config?_eq_some_iff {n : Node} : n.config? = some config ↔ n.content = .field config := by
  cases hc : n.content <;> simp [config?, hc]

end Node

namespace FormTree

@[simp] theorem tabs_update (t : FormTree) (id : String) (f : Node → Node) :
    (t.update id f).tabs = t.tabs := rfl

@[simp] theorem tabs_insertNode (t : FormTree) (id : String) (content : Content) :
    (t.insertNode id content).tabs = t.tabs := rfl

theorem node?_update (t : FormTree) (id x : String) (f : Node → Node) :
    (t.update id f).node? x = if x = id then (t.node? x).map f else t.node? x :=
  Entries.get?_update t.nodes id x f

theorem distinct_update {t : FormTree} (id : String) (f : Node → Node) (h : t.nodes.Distinct) :
    (t.update id f).nodes.Distinct := h.update id f

theorem node?_insertNode (t : FormTree) (id x : String) (content : Content) :
    (t.insertNode id content).node? x =
      if x = id then some (Node.fresh id content) else t.node? x :=
  Entries.get?_put t.nodes id x _

theorem node?_insertNode_self (t : FormTree) (id : String) (content : Content) :
    (t.insertNode id content).node? id = some (Node.fresh id content) := by
  rw [node?_insertNode, if_pos rfl]

theorem has_iff {t : FormTree} {id : String} : t.has id = true ↔ ∃ n, t.node? id = some n :=
  Option.isSome_iff_exists

/-- Whether a node of some kind may stand in a container, or at the top level. -/
def Admits (t : FormTree) (container : Option String) (kind : NodeKind) : Prop :=
  match container with
  | none => kind = .tab
  | some p => ∃ m, t.node? p = some m ∧ m.kind.canContain kind = true

/-- The links of a tree fit, where the loose nodes are those that stand in no list. -/
structure Linked (loose : String → Prop) (t : FormTree) : Prop where
  distinct : t.nodes.Distinct
  keyed {id n} : t.node? id = some n → n.id = id
  palette_keyed {id n name} : t.node? id = some n → n.palette? = some name → id = paletteId name
  tabs_nodup : t.tabs.Nodup
  mem_tabs {id} : id ∈ t.tabs ↔ ¬ loose id ∧ ∃ n, t.node? id = some n ∧ n.kind = .tab
  loose_node {id} : loose id → ∃ n, t.node? id = some n
  rooted {id n} : t.node? id = some n → (n.parent = none ↔ loose id ∨ n.kind = .tab)
  held {id n p} : t.node? id = some n → n.parent = some p →
    ∃ m, t.node? p = some m ∧ m.kind.canContain n.kind = true ∧ id ∈ m.children
  children_nodup {id n} : t.node? id = some n → n.children.Nodup
  listed {id n c} : t.node? id = some n → c ∈ n.children →
    ∃ m, t.node? c = some m ∧ m.parent = some id

/-- The nodes of a tree are those of another one, with other parents and children. -/
structure Relinks (t u : FormTree) (f : Node → Node) : Prop where
  node? (x : String) : u.node? x = (t.node? x).map f
  id (n : Node) : (f n).id = n.id
  kind (n : Node) : (f n).kind = n.kind
  palette? (n : Node) : (f n).palette? = n.palette?

namespace Relinks

variable {t u : FormTree} {f : Node → Node} {loose loose' : String → Prop}

theorem back (hr : t.Relinks u f) (hx : u.node? x = some n) : ∃ m, t.node? x = some m ∧ f m = n :=
  Option.map_eq_some_iff.1 ((hr.node? x).symm.trans hx)

theorem forth (hr : t.Relinks u f) (hx : t.node? x = some n) : u.node? x = some (f n) := by
  rw [hr.node?, hx, Option.map_some]

theorem exists_kind_iff (hr : t.Relinks u f) (x : String) (kind : NodeKind) :
    (∃ n, u.node? x = some n ∧ n.kind = kind) ↔ ∃ n, t.node? x = some n ∧ n.kind = kind := by
  constructor
  · rintro ⟨n, hn, hk⟩
    obtain ⟨m, hm, rfl⟩ := hr.back hn
    exact ⟨m, hm, (hr.kind m).symm.trans hk⟩
  · rintro ⟨m, hm, hk⟩
    exact ⟨f m, hr.forth hm, (hr.kind m).trans hk⟩

/-- The links fit again when the new parents and children of the nodes before fit each other. -/
theorem linked (hr : t.Relinks u f) (h : t.Linked loose) (hdistinct : u.nodes.Distinct)
    (htabs : u.tabs.Nodup)
    (hmem : ∀ x, x ∈ u.tabs ↔ ¬ loose' x ∧ ∃ n, t.node? x = some n ∧ n.kind = .tab)
    (hloose : ∀ x, loose' x → ∃ n, t.node? x = some n)
    (hrooted : ∀ x n, t.node? x = some n → ((f n).parent = none ↔ loose' x ∨ n.kind = .tab))
    (hheld : ∀ x n p, t.node? x = some n → (f n).parent = some p →
      ∃ m, t.node? p = some m ∧ m.kind.canContain n.kind = true ∧ x ∈ (f m).children)
    (hnodup : ∀ x n, t.node? x = some n → (f n).children.Nodup)
    (hlisted : ∀ x n c, t.node? x = some n → c ∈ (f n).children →
      ∃ m, t.node? c = some m ∧ (f m).parent = some x) : u.Linked loose' := by
  constructor
  case distinct => exact hdistinct
  case tabs_nodup => exact htabs
  case mem_tabs =>
    intro x
    rw [hmem, hr.exists_kind_iff]
  case loose_node =>
    intro x hl
    obtain ⟨m, hm⟩ := hloose x hl
    exact ⟨f m, hr.forth hm⟩
  all_goals intro x n
  case keyed =>
    intro hx
    obtain ⟨m, hm, rfl⟩ := hr.back hx
    exact (hr.id m).trans (h.keyed hm)
  case palette_keyed =>
    intro name hx hn
    obtain ⟨m, hm, rfl⟩ := hr.back hx
    exact h.palette_keyed hm ((hr.palette? m).symm.trans hn)
  case rooted =>
    intro hx
    obtain ⟨m, hm, rfl⟩ := hr.back hx
    rw [hr.kind]
    exact hrooted x m hm
  case held =>
    intro p hx hp
    obtain ⟨m, hm, rfl⟩ := hr.back hx
    obtain ⟨k, hk, hkc, hmem⟩ := hheld x m p hm hp
    exact ⟨f k, hr.forth hk, by rw [hr.kind, hr.kind]; exact hkc, hmem⟩
  case children_nodup =>
    intro hx
    obtain ⟨m, hm, rfl⟩ := hr.back hx
    exact hnodup x m hm
  case listed =>
    intro c hx hc
    obtain ⟨m, hm, rfl⟩ := hr.back hx
    obtain ⟨k, hk, hp⟩ := hlisted x m c hm hc
    exact ⟨f k, hr.forth hk, hp⟩

end Relinks

namespace Linked

variable {t u : FormTree} {loose loose' : String → Prop}

theorem congr (h : t.Linked loose) (he : ∀ x, loose x ↔ loose' x) : t.Linked loose' := by
  have : loose = loose' := funext fun x => propext (he x)
  exact this ▸ h

theorem empty (label : String) : (FormTree.empty label).Linked fun _ => False where
  distinct := List.nodup_nil
  keyed h := by cases h
  palette_keyed h := by cases h
  tabs_nodup := List.nodup_nil
  mem_tabs := by simp [FormTree.empty, node?, Entries.get?]
  loose_node h := h.elim
  rooted h := by cases h
  held h := by cases h
  children_nodup h := by cases h
  listed h := by cases h

theorem reset (t : FormTree) : t.reset.Linked fun _ => False :=
  let h := Linked.empty t.defaultTabLabel
  ⟨h.distinct, h.keyed, h.palette_keyed, h.tabs_nodup, h.mem_tabs, h.loose_node, h.rooted, h.held,
    h.children_nodup, h.listed⟩

/-- The links of a tree do not depend on its numbering of line breaks. -/
theorem numbering (h : t.Linked loose) (k : Nat) : { t with lineBreaks := k }.Linked loose :=
  ⟨h.distinct, h.keyed, h.palette_keyed, h.tabs_nodup, h.mem_tabs, h.loose_node, h.rooted, h.held,
    h.children_nodup, h.listed⟩

theorem relinks_update (h : t.Linked loose) (id : String) (hf : Node.KeepsLinks f) :
    t.Relinks (t.update id f) fun n => if n.id = id then f n else n := by
  constructor
  case node? =>
    intro x
    rw [node?_update]
    cases hx : t.node? x with
    | none => rw [Option.map_none, Option.map_none, ite_self]
    | some n =>
      rw [Option.map_some, Option.map_some, h.keyed hx]
      split <;> rfl
  all_goals
    intro n
    split
  · exact hf.id n
  · rfl
  · exact hf.kind n
  · rfl
  · exact hf.palette? n
  · rfl

theorem update (h : t.Linked loose) (id : String) (hf : Node.KeepsLinks f) :
    (t.update id f).Linked loose := by
  have hparent (n : Node) : (if n.id = id then f n else n).parent = n.parent := by
    split
    · exact hf.parent n
    · rfl
  have hchildren (n : Node) : (if n.id = id then f n else n).children = n.children := by
    split
    · exact hf.children n
    · rfl
  apply (h.relinks_update id hf).linked h (h.distinct.update id f) h.tabs_nodup
  · exact fun _ => h.mem_tabs
  · exact fun _ => h.loose_node
  all_goals intro x n
  · rw [hparent]
    exact h.rooted
  · intro p hx hp
    obtain ⟨m, hm, hk, hmem⟩ := h.held hx ((hparent n).symm.trans hp)
    exact ⟨m, hm, hk, by rw [hchildren]; exact hmem⟩
  · rw [hchildren]
    exact h.children_nodup
  · intro c hx hc
    obtain ⟨m, hm, hp⟩ := h.listed hx (hchildren n ▸ hc)
    exact ⟨m, hm, (hparent m).trans hp⟩

theorem not_mem_children (h : t.Linked loose) {id : String}
    (hp : (t.node? id).bind Node.parent = none) (hx : t.node? x = some n) :
    id ∉ n.children := by
  intro hc
  obtain ⟨m, hm, hpm⟩ := h.listed hx hc
  rw [hm, Option.bind_some, hpm] at hp
  cases hp

theorem not_mem_tabs (h : t.Linked loose) {id : String} (hn : t.node? id = some n)
    (hk : n.kind ≠ .tab) : id ∉ t.tabs := by
  rw [h.mem_tabs]
  rintro ⟨_, m, hm, hkm⟩
  cases hn.symm.trans hm
  exact hk hkm

theorem ne_tab_of_parent (h : t.Linked loose) {id : String} (hn : t.node? id = some n)
    (hp : n.parent = some p) : n.kind ≠ .tab := by
  obtain ⟨m, _, hc, _⟩ := h.held hn hp
  exact NodeKind.ne_tab_of_canContain hc

theorem tabs_detach (h : t.Linked loose) (id : String) :
    (t.detach id).tabs = t.tabs.filter (· ≠ id) := by
  rw [detach]
  split
  · next p hp =>
    obtain ⟨n, hn, hpn⟩ := Option.bind_eq_some_iff.1 hp
    exact (filter_ne_eq_self (h.not_mem_tabs hn (h.ne_tab_of_parent hn hpn))).symm
  · rfl

theorem ne_of_parent (h : t.Linked loose) {id : String} (hn : t.node? id = some n)
    (hp : n.parent = some p) : p ≠ id := by
  rintro rfl
  obtain ⟨m, hm, hc, _⟩ := h.held hn hp
  cases hn.symm.trans hm
  exact Nat.lt_irrefl _ (NodeKind.height_lt_of_canContain hc)

theorem node?_detach (h : t.Linked loose) (id x : String) :
    (t.detach id).node? x = (t.node? x).map (Node.taken id) := by
  rw [FormTree.detach]
  split
  · next p hp =>
    obtain ⟨i, hi, hpi⟩ := Option.bind_eq_some_iff.1 hp
    rw [node?_update, node?_update]
    cases hx : t.node? x with
    | none => simp
    | some n =>
      obtain rfl := h.keyed hx
      by_cases hxp : n.id = p
      · have hne : n.id ≠ id := hxp ▸ h.ne_of_parent hi hpi
        simp [Node.taken, hne, ← hxp]
      · have hc : id ∉ n.children := by
          intro hc
          obtain ⟨m, hm, hpm⟩ := h.listed hx hc
          cases hi.symm.trans hm
          cases hpi.symm.trans hpm
          exact hxp rfl
        rw [if_neg hxp, Option.map_some, Option.map_some, Node.taken_of_not_mem hc]
        by_cases hxi : n.id = id
        · simp only [hxi, ↓reduceIte]
        · simp only [hxi, ↓reduceIte]
  · next hp =>
    change t.node? x = _
    cases hx : t.node? x with
    | none => rfl
    | some n =>
      obtain rfl := h.keyed hx
      rw [Option.map_some, Node.taken_of_not_mem (h.not_mem_children hp hx)]
      by_cases hxi : n.id = id
      · have hpn : n.parent = none := by simpa [← hxi, hx] using hp
        subst hxi
        rw [if_pos rfl, ← hpn]
      · simp only [hxi, ↓reduceIte]

theorem relinks_detach (h : t.Linked loose) (id : String) :
    t.Relinks (t.detach id) (Node.taken id) :=
  ⟨h.node?_detach id, fun _ => rfl, fun _ => rfl, fun _ => rfl⟩

theorem distinct_detach (h : t.Linked loose) (id : String) : (t.detach id).nodes.Distinct := by
  rw [FormTree.detach]
  split
  · exact distinct_update _ _ (distinct_update _ _ h.distinct)
  · exact h.distinct

theorem detach (h : t.Linked loose) {id : String} (hn : t.node? id = some n) :
    (t.detach id).Linked fun x => x = id ∨ loose x := by
  apply (h.relinks_detach id).linked h (h.distinct_detach id)
  · rw [h.tabs_detach]
    exact h.tabs_nodup.filter _
  · intro x
    rw [h.tabs_detach, List.mem_filter, h.mem_tabs, not_or, decide_eq_true_iff, and_comm, and_assoc]
  · rintro x (rfl | hl)
    · exact ⟨n, hn⟩
    · exact h.loose_node hl
  · intro x m hx
    rw [Node.parent_taken, h.keyed hx]
    by_cases he : x = id
    · simp [he]
    · simpa [he] using h.rooted hx
  · intro x m p hx hp
    rw [Node.parent_taken, h.keyed hx] at hp
    by_cases he : x = id
    · simp [he] at hp
    · rw [if_neg he] at hp
      obtain ⟨k, hk, hc, hmem⟩ := h.held hx hp
      exact ⟨k, hk, hc, List.mem_filter.2 ⟨hmem, decide_eq_true he⟩⟩
  · intro x m hx
    exact (h.children_nodup hx).filter _
  · intro x m c hx hc
    obtain ⟨hc, hne⟩ := List.mem_filter.1 hc
    obtain ⟨k, hk, hp⟩ := h.listed hx hc
    refine ⟨k, hk, ?_⟩
    rw [Node.parent_taken, h.keyed hk, if_neg (of_decide_eq_true hne), hp]

theorem admits_detach (h : t.Linked loose) {id : String} (hc : t.Admits c k) :
    (t.detach id).Admits c k := by
  cases c with
  | none => exact hc
  | some p =>
    obtain ⟨m, hm, hmk⟩ := hc
    exact ⟨m.taken id, by rw [h.node?_detach, hm]; rfl, hmk⟩

theorem tabs_attach (t : FormTree) (id : String) (c : Option String) (a : Anchor) :
    (t.attach id c a).tabs = if c = none then a.insert id t.tabs else t.tabs := by
  cases c <;> rfl

theorem node?_attach (h : t.Linked loose) {id : String} {n : Node} (hn : t.node? id = some n)
    (hl : loose id) (hc : t.Admits c n.kind) (a : Anchor) (x : String) :
    (t.attach id c a).node? x = (t.node? x).map (Node.held id c a) := by
  cases c with
  | none =>
    change t.node? x = _
    cases hx : t.node? x with
    | none => rfl
    | some m =>
      obtain rfl := h.keyed hx
      by_cases he : m.id = id
      · have hp : m.parent = none := (h.rooted hx).2 (.inl (he ▸ hl))
        rw [Option.map_some, Node.held, if_pos he, if_neg (by simp), ← hp]
      · rw [Option.map_some, Node.held_of_ne (c := none) he (by simp)]
  | some p =>
    obtain ⟨k, hk, hkc⟩ := hc
    have hne : p ≠ id := by
      rintro rfl
      cases hn.symm.trans hk
      exact Nat.lt_irrefl _ (NodeKind.height_lt_of_canContain hkc)
    rw [FormTree.attach, node?_update, node?_update]
    cases hx : t.node? x with
    | none => simp
    | some m =>
      obtain rfl := h.keyed hx
      by_cases hp : m.id = p
      · have hi : m.id ≠ id := hp ▸ hne
        rw [if_neg hi, if_pos hp, Option.map_some, Option.map_some, Node.held, if_neg hi,
          if_pos (congrArg some hp.symm)]
      · by_cases hi : m.id = id
        · rw [if_pos hi, if_neg hp, Option.map_some, Option.map_some, Node.held, if_pos hi,
            if_neg (fun he => hp (Option.some.inj he).symm)]
        · rw [if_neg hi, if_neg hp, Option.map_some,
            Node.held_of_ne hi (fun he => hp (Option.some.inj he).symm)]

theorem relinks_attach (h : t.Linked loose) {id : String} {n : Node} (hn : t.node? id = some n)
    (hl : loose id) (hc : t.Admits c n.kind) (a : Anchor) :
    t.Relinks (t.attach id c a) (Node.held id c a) :=
  ⟨h.node?_attach hn hl hc a, fun _ => rfl, fun _ => rfl, fun _ => rfl⟩

theorem distinct_attach (h : t.nodes.Distinct) (id : String) (c : Option String) (a : Anchor) :
    (t.attach id c a).nodes.Distinct := by
  cases c with
  | none => exact h
  | some p => exact distinct_update _ _ (distinct_update _ _ h)

/-- Tabs are admitted at the top level, and other nodes in containers. -/
theorem eq_none_iff_of_admits (hc : t.Admits c kind) : c = none ↔ kind = .tab := by
  cases c with
  | none => exact iff_of_true rfl hc
  | some p =>
    obtain ⟨k, _, hkc⟩ := hc
    exact iff_of_false (Option.some_ne_none p) (NodeKind.ne_tab_of_canContain hkc)

theorem mem_tabs_attach (h : t.Linked loose) {id : String} {n : Node} (hn : t.node? id = some n)
    (hl : loose id) (hc : t.Admits c n.kind) (a : Anchor) (x : String) :
    x ∈ (t.attach id c a).tabs ↔
      ¬(x ≠ id ∧ loose x) ∧ ∃ m, t.node? x = some m ∧ m.kind = .tab := by
  have hfree : id ∉ t.tabs := fun hm => (h.mem_tabs.1 hm).1 hl
  have hmem : x ∈ (t.attach id c a).tabs ↔ (x = id ∧ c = none) ∨ x ∈ t.tabs := by
    rw [tabs_attach]
    split <;> simp [Anchor.mem_insert, *]
  rw [hmem]
  by_cases he : x = id
  · subst he
    simp [hn, hfree, eq_none_iff_of_admits hc]
  · simp [he, h.mem_tabs]

theorem attach (h : t.Linked loose) {id : String} {n : Node} (hn : t.node? id = some n)
    (hl : loose id) (hc : t.Admits c n.kind) (a : Anchor) :
    (t.attach id c a).Linked fun x => x ≠ id ∧ loose x := by
  have hpn : n.parent = none := (h.rooted hn).2 (.inl hl)
  have hfree {x m} (hx : t.node? x = some m) : id ∉ m.children :=
    h.not_mem_children (by rw [hn]; exact hpn) hx
  apply (h.relinks_attach hn hl hc a).linked h (distinct_attach h.distinct id c a)
  · rw [tabs_attach]
    split
    · exact Anchor.nodup_insert h.tabs_nodup fun hm => (h.mem_tabs.1 hm).1 hl
    · exact h.tabs_nodup
  · exact h.mem_tabs_attach hn hl hc a
  · exact fun x hx => h.loose_node hx.2
  · intro x m hx
    rw [Node.parent_held, h.keyed hx]
    by_cases he : x = id
    · subst he
      cases hn.symm.trans hx
      simp [eq_none_iff_of_admits hc]
    · rw [if_neg he, h.rooted hx]
      simp [he]
  · intro x m p hx hp
    rw [Node.parent_held, h.keyed hx] at hp
    by_cases he : x = id
    · subst he
      cases hn.symm.trans hx
      rw [if_pos rfl] at hp
      subst hp
      obtain ⟨k, hk, hkc⟩ := hc
      refine ⟨k, hk, hkc, ?_⟩
      rw [Node.children_held, h.keyed hk, if_pos rfl]
      exact (Anchor.mem_insert a).2 (.inl rfl)
    · rw [if_neg he] at hp
      obtain ⟨k, hk, hkc, hmem⟩ := h.held hx hp
      refine ⟨k, hk, hkc, ?_⟩
      rw [Node.children_held]
      split
      · exact (Anchor.mem_insert a).2 (.inr hmem)
      · exact hmem
  · intro x m hx
    rw [Node.children_held]
    split
    · exact Anchor.nodup_insert (h.children_nodup hx) (hfree hx)
    · exact h.children_nodup hx
  · intro x m y hx hy
    have hcases : (y = id ∧ c = some x) ∨ y ∈ m.children := by
      rw [Node.children_held, h.keyed hx] at hy
      split at hy
      · next hcx => exact ((Anchor.mem_insert a).1 hy).imp_left fun he => ⟨he, hcx⟩
      · exact .inr hy
    rcases hcases with ⟨rfl, hcx⟩ | hy
    · exact ⟨n, hn, by rw [Node.parent_held, if_pos (h.keyed hn), hcx]⟩
    · obtain ⟨k, hk, hkp⟩ := h.listed hx hy
      have hne : y ≠ id := fun he => hfree hx (he ▸ hy)
      exact ⟨k, hk, by rw [Node.parent_held, h.keyed hk, if_neg hne, hkp]⟩

theorem relocate (h : t.Linked loose) {id : String} {n : Node} (hn : t.node? id = some n)
    (hc : t.Admits c n.kind) (a : Anchor) :
    (t.relocate id c a).Linked fun x => x ≠ id ∧ loose x := by
  have hn' : (t.detach id).node? id = some (n.taken id) := by rw [h.node?_detach, hn]; rfl
  refine ((h.detach hn).attach hn' (.inl rfl) (h.admits_detach hc) a).congr fun x => ?_
  exact ⟨fun hx => ⟨hx.1, hx.2.resolve_left hx.1⟩, fun hx => ⟨hx.1, .inr hx.2⟩⟩

theorem tabs_relocate (h : t.Linked loose) (id : String) (c : Option String) (a : Anchor) :
    (t.relocate id c a).tabs =
      if c = none then a.insert id (t.tabs.filter (· ≠ id)) else t.tabs.filter (· ≠ id) := by
  rw [FormTree.relocate, tabs_attach, h.tabs_detach]

theorem node?_relocate (h : t.Linked loose) {id : String} {n : Node} (hn : t.node? id = some n)
    (hc : t.Admits c n.kind) (a : Anchor) (x : String) :
    (t.relocate id c a).node? x = (t.node? x).map (Node.moved id c a) := by
  have hn' : (t.detach id).node? id = some (n.taken id) := by rw [h.node?_detach, hn]; rfl
  rw [FormTree.relocate, (h.detach hn).node?_attach hn' (.inl rfl) (h.admits_detach hc),
    h.node?_detach, Option.map_map]
  rfl

theorem insertNode (h : t.Linked loose) {id : String} {content : Content}
    (hid : t.node? id = none) (hc : ∀ name, content = .palette name → id = paletteId name) :
    (t.insertNode id content).Linked fun x => x = id ∨ loose x := by
  have hne {x m} (hx : t.node? x = some m) : x ≠ id := by
    rintro rfl
    cases hid.symm.trans hx
  have hforth {x m} (hx : t.node? x = some m) : (t.insertNode id content).node? x = some m := by
    rw [node?_insertNode, if_neg (hne hx), hx]
  have hback {x m} (hx : (t.insertNode id content).node? x = some m) :
      (x = id ∧ m = Node.fresh id content) ∨ t.node? x = some m := by
    rw [node?_insertNode] at hx
    split at hx
    · next he => exact .inl ⟨he, (Option.some.inj hx).symm⟩
    · exact .inr hx
  constructor
  case distinct => exact h.distinct.put id _
  case keyed =>
    intro x m hx
    rcases hback hx with ⟨rfl, rfl⟩ | hx
    · rfl
    · exact h.keyed hx
  case palette_keyed =>
    intro x m name hx hp
    rcases hback hx with ⟨rfl, rfl⟩ | hx
    · exact hc name (Node.palette?_eq_some_iff.1 hp)
    · exact h.palette_keyed hx hp
  case tabs_nodup => exact h.tabs_nodup
  case mem_tabs =>
    intro x
    rw [tabs_insertNode, h.mem_tabs]
    constructor
    · rintro ⟨hl, m, hm, hk⟩
      exact ⟨not_or.2 ⟨hne hm, hl⟩, m, hforth hm, hk⟩
    · rintro ⟨hl, m, hm, hk⟩
      rcases hback hm with ⟨rfl, _⟩ | hm
      · exact absurd (.inl rfl) hl
      · exact ⟨fun hx => hl (.inr hx), m, hm, hk⟩
  case loose_node =>
    rintro x (rfl | hl)
    · exact ⟨_, node?_insertNode_self t _ content⟩
    · obtain ⟨m, hm⟩ := h.loose_node hl
      exact ⟨m, hforth hm⟩
  case rooted =>
    intro x m hx
    rcases hback hx with ⟨rfl, rfl⟩ | hx
    · simp [Node.fresh]
    · simpa [hne hx] using h.rooted hx
  case held =>
    intro x m p hx hp
    rcases hback hx with ⟨rfl, rfl⟩ | hx
    · cases hp
    · obtain ⟨k, hk, hkc, hmem⟩ := h.held hx hp
      exact ⟨k, hforth hk, hkc, hmem⟩
  case children_nodup =>
    intro x m hx
    rcases hback hx with ⟨rfl, rfl⟩ | hx
    · exact List.nodup_nil
    · exact h.children_nodup hx
  case listed =>
    intro x m c hx hc
    rcases hback hx with ⟨rfl, rfl⟩ | hx
    · cases hc
    · obtain ⟨k, hk, hp⟩ := h.listed hx hc
      exact ⟨k, hforth hk, hp⟩

end Linked

end FormTree

end FormLayout
