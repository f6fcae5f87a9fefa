import FormLayout.Proofs.Layout.Items
import FormLayout.Proofs.Layout.Sound
/-!
Appending a new node to a container, and what this does to the items.
-/

namespace FormLayout.FormTree
set_option autoImplicit true

/-- A tree after a new node was put at the end of a container. -/
structure Appends (t u : FormTree) (target : String) (n : Node) : Prop where
  tabs : u.tabs = t.tabs
  parent : n.parent = some target
  children : n.children = []
  node? (x : String) : u.node? x = if x = n.id then some n else
    (t.node? x).map fun m =>
      if m.id = target then { m with children := m.children ++ [n.id] } else m

namespace Linked

variable {t u : FormTree} {loose : String → Prop}

theorem appends_insert (h : t.Linked loose) {id : String} {content : Content}
    (hid : t.node? id = none) (hp : ∀ name, content = .palette name → id = paletteId name)
    (hc : (t.insertNode id content).Admits (some target) content.kind) :
    t.Appends ((t.insertNode id content).relocate id (some target) .last) target
      ⟨id, [], some target, [], content⟩ where
  tabs := by rw [h.tabs_insert_relocate hid hp, if_neg (by simp)]
  parent := rfl
  children := rfl
  node? x := by
    rw [h.node?_insert_relocate hid hp hc]
    refine if_congr Iff.rfl rfl (congrArg (Option.map · _) (funext fun m => ?_))
    by_cases hm : m.id = target
    · rw [if_pos hm, if_pos (by rw [hm])]
      rfl
    · rw [if_neg hm, if_neg (by simpa using Ne.symm hm)]

end Linked

namespace Appends

variable {t u : FormTree} {loose : String → Prop} {target : String} {n : Node}

theorem update_slots (ha : t.Appends u target n) {id : String} (hid : n.id = id) (slots : Slots) :
    t.Appends (u.update id fun n => { n with slots }) target { n with slots } where
  tabs := ha.tabs
  parent := ha.parent
  children := ha.children
  node? x := by
    subst hid
    rw [node?_update, ha.node? x]
    by_cases hx : x = n.id <;> simp [hx]

/-- The node may still go to another container. -/
theorem relocate (ha : t.Appends u target n) (h : t.Linked loose) (hu : u.Linked loose')
    (hid : t.node? n.id = none) (hc : u.Admits (some target') n.kind) :
    t.Appends (u.relocate n.id (some target') .last) target' { n with parent := some target' } where
  tabs := by
    have hn : u.node? n.id = some n := by rw [ha.node?, if_pos rfl]
    have hk : n.kind ≠ .tab := hu.ne_tab_of_parent hn ha.parent
    rw [hu.tabs_relocate_of_ne_tab hn hk hc, ha.tabs]
  parent := rfl
  children := ha.children
  node? x := by
    have hn : u.node? n.id = some n := by rw [ha.node?, if_pos rfl]
    have hne : target' ≠ n.id := by
      rintro rfl
      obtain ⟨m, hm, hmk⟩ := hc
      cases hn.symm.trans hm
      exact Nat.lt_irrefl _ (NodeKind.height_lt_of_canContain hmk)
    rw [hu.node?_relocate hn hc, ha.node?]
    by_cases hx : x = n.id
    · rw [if_pos hx, if_pos hx, Option.map_some, Node.moved, Node.held, Node.taken]
      simp [hne, ha.children]
    · rw [if_neg hx, if_neg hx, Option.map_map]
      cases hm : t.node? x with
      | none => rfl
      | some m =>
        have hmn : m.id ≠ n.id := by rwa [h.keyed hm]
        have hmem := h.not_mem_children_of_fresh hid hm
        have hback : (if m.id = target then { m with children := m.children ++ [n.id] }
            else m).taken n.id = m := by
          split
          · simp only [Node.taken, if_neg hmn, List.filter_append, filter_ne_eq_self hmem]
            simp
          · rw [Node.taken_of_not_mem hmem, if_neg hmn]
        rw [Option.map_some, Option.map_some, Function.comp_apply, Node.moved, hback, Node.held,
          if_neg hmn]
        by_cases ht : m.id = target'
        · rw [if_pos ht, if_pos (by rw [ht])]
          rfl
        · rw [if_neg ht, if_neg (by simpa using Ne.symm ht)]

theorem node?_self (ha : t.Appends u target n) : u.node? n.id = some n := by
  rw [ha.node?, if_pos rfl]

theorem node?_of_ne (ha : t.Appends u target n) (hx : x ≠ n.id) : u.node? x =
    (t.node? x).map fun m =>
      if m.id = target then { m with children := m.children ++ [n.id] } else m := by
  rw [ha.node?, if_neg hx]

theorem node_cases (ha : t.Appends u target n) (hm : u.node? x = some m) :
    (x = n.id ∧ m = n) ∨ ∃ k, t.node? x = some k ∧ m.kind = k.kind := by
  rw [ha.node?] at hm
  split at hm
  · next hx =>
    cases hm
    exact .inl ⟨hx, rfl⟩
  · obtain ⟨k, hk, rfl⟩ := Option.map_eq_some_iff.1 hm
    refine .inr ⟨k, hk, ?_⟩
    split <;> rfl

theorem kind_of_ne (ha : t.Appends u target n) (hx : x ≠ n.id) (hm : t.node? x = some m) :
    ∃ m', u.node? x = some m' ∧ m'.kind = m.kind := by
  rw [ha.node?_of_ne hx, hm, Option.map_some]
  refine ⟨_, rfl, ?_⟩
  split <;> rfl

/-- The children of a node in any view of them that does not depend on their places. -/
theorem filterMap_childNodes (ha : t.Appends u target n) (h : t.Linked loose)
    (hid : t.node? n.id = none) (ht : t.node? target = some m) {f : Node → Option β}
    (hf : ∀ (k : Node) p cs, f { k with parent := p, children := cs } = f k) (hx : x ≠ n.id) :
    (u.childNodes x).filterMap f =
      (t.childNodes x).filterMap f ++ if x = target then (f n).toList else [] := by
  have hchild {k c} (hk : t.node? x = some k) (hc : c ∈ k.children) :
      (u.node? c).bind f = (t.node? c).bind f := by
    obtain ⟨q, hq, _⟩ := h.listed hk hc
    rw [ha.node?_of_ne (Linked.ne_of_fresh hid hq), hq, Option.map_some, Option.bind_some,
      Option.bind_some]
    split
    · exact hf q q.parent _
    · rfl
  rw [childNodes, childNodes, ha.node?_of_ne hx]
  cases hk : t.node? x with
  | none =>
    have hne : x ≠ target := by
      rintro rfl
      cases hk.symm.trans ht
    simp [hne]
  | some k =>
    have hkids : (k.children.filterMap u.node?).filterMap f =
        (k.children.filterMap t.node?).filterMap f := by
      rw [List.filterMap_filterMap, List.filterMap_filterMap]
      exact List.filterMap_congr fun c hc => hchild hk hc
    have hn := ha.node?_self
    rw [Option.map_some, h.keyed hk]
    by_cases hxt : x = target
    · rw [if_pos hxt, if_pos hxt]
      dsimp only
      rw [List.filterMap_append, List.filterMap_append, hkids]
      cases hf : f n <;> simp [hn, hf]
    · rw [if_neg hxt, if_neg hxt, List.append_nil]
      exact hkids

/-- The same tabs, with the new node among the children of one of them. -/
theorem tabNodes_eq (ha : t.Appends u target n) (h : t.Linked loose) (hid : t.node? n.id = none) :
    u.tabNodes = t.tabNodes.map fun tab =>
      if tab.id = target then { tab with children := tab.children ++ [n.id] } else tab := by
  rw [tabNodes, tabNodes, List.map_filterMap, ha.tabs]
  apply List.filterMap_congr
  intro x hx
  apply ha.node?_of_ne
  rintro rfl
  exact h.not_mem_tabs_of_fresh hid hx

/-- Among the tabs only a tab that was appended to has a new item, at its end. -/
theorem items (ha : t.Appends u target n) (h : t.Linked loose) (hid : t.node? n.id = none)
    (ht : t.node? target = some m) : u.items = t.tabNodes.flatMap fun tab =>
      t.itemsOfTab tab ++ if tab.id = target then (Layout.itemInTab? n).toList else [] := by
  have hview : ∀ (k : Node) p cs,
      Layout.itemInTab? { k with parent := p, children := cs } = Layout.itemInTab? k :=
    fun k _ _ => by cases hc : k.content <;> simp [Layout.itemInTab?, hc] <;> rfl
  rw [FormTree.items, ha.tabNodes_eq h hid, List.flatMap_map]
  refine List.flatMap_congr fun tab htab => ?_
  obtain ⟨x, hx⟩ := mem_tabNodes htab
  have hne : tab.id ≠ n.id := by
    rw [h.keyed hx]
    exact Linked.ne_of_fresh hid hx
  have hkids := ha.filterMap_childNodes h hid ht hview hne
  split
  · next he =>
    rw [if_pos he] at hkids
    rw [itemsOfTab, itemsOfTab, hkids]
    rfl
  · next he =>
    rw [if_neg he] at hkids
    rw [itemsOfTab, itemsOfTab, hkids]
    rfl

theorem items_palette (ha : t.Appends u target n) (h : t.Linked loose)
    (hid : t.node? n.id = none) (ht : t.node? target = some m) (hm : m.kind ≠ .tab) :
    u.items = t.items := by
  rw [ha.items h hid ht, FormTree.items]
  refine List.flatMap_congr fun tab htab => ?_
  obtain ⟨x, hx, hn⟩ := List.mem_filterMap.1 htab
  rw [if_neg, List.append_nil]
  rintro rfl
  rw [h.keyed hn] at ht
  exact h.not_mem_tabs ht hm hx

theorem items_last_tab (ha : t.Appends u target n) (h : t.Linked loose)
    (hid : t.node? n.id = none) (hlast : t.tabs.getLast? = some target) :
    u.items = t.items ++ (Layout.itemInTab? n).toList := by
  obtain ⟨_, m, ht, _⟩ := h.mem_tabs.1 (List.mem_of_getLast? hlast)
  obtain ⟨init, hinit⟩ := List.getLast?_eq_some_iff.1 hlast
  have hnodes : t.tabNodes = init.filterMap t.node? ++ [m] := by
    rw [tabNodes, hinit, List.filterMap_append]
    simp [ht]
  have hnodup := h.tabs_nodup
  rw [hinit, List.nodup_append] at hnodup
  rw [ha.items h hid ht, FormTree.items, hnodes, List.flatMap_append, List.flatMap_append,
    List.append_assoc]
  congr 1
  · refine List.flatMap_congr fun tab htab => ?_
    obtain ⟨x, hx, hn⟩ := List.mem_filterMap.1 htab
    rw [if_neg, List.append_nil]
    rw [h.keyed hn]
    exact hnodup.2.2 x hx target (List.mem_singleton_self _)
  · simp [h.keyed ht]

theorem inside_of_ne (ha : t.Appends u target n) (h : t.Linked loose)
    (hid : t.node? n.id = none) (ht : t.node? target = some m) (hx : x ≠ n.id) :
    u.inside x = t.inside x ++ if x = target then (Layout.itemInPalette? n).toList else [] :=
  ha.filterMap_childNodes h hid ht
    (fun k _ _ => by cases hc : k.content <;> simp [Layout.itemInPalette?, hc]; rfl) hx

theorem inside_self (ha : t.Appends u target n) : u.inside n.id = [] := by
  rw [inside, childNodes, ha.node?, if_pos rfl]
  simp [ha.children]

/-- The palettes beside the new node are as they were. -/
theorem palette_of_mem (ha : t.Appends u target n) (h : t.Linked loose) (hid : t.node? n.id = none)
    (ht : t.node? target = some m) (hm : m.palette? = none) (hn : n.palette? = none)
    (hk : k ∈ u.childNodes x) : (k.palette?.map fun name => (name, u.paletteShowItem k)) =
      k.palette?.map fun name => (name, t.paletteShowItem k) := by
  obtain ⟨c, hc⟩ := mem_childNodes hk
  by_cases hcn : c = n.id
  · rw [hcn, ha.node?_self] at hc
    rw [← Option.some.inj hc, hn]
    rfl
  · rw [ha.node?_of_ne hcn] at hc
    obtain ⟨p, hp, rfl⟩ := Option.map_eq_some_iff.1 hc
    by_cases htarget : p.id = target
    · rw [← htarget, h.keyed hp, hp, Option.some_inj] at ht
      have hnone : ({ p with children := p.children ++ [n.id] } : Node).palette? = none := ht ▸ hm
      rw [if_pos htarget, hnone]
      rfl
    · have hne : p.id ≠ n.id := by rwa [h.keyed hp]
      rw [if_neg htarget, paletteShowItem_eq, paletteShowItem_eq, ha.inside_of_ne h hid ht hne,
        if_neg htarget, List.append_nil]

/-- A new node that is no palette, in a container that is none, leaves the palettes as they are. -/
theorem palettes (ha : t.Appends u target n) (h : t.Linked loose) (hid : t.node? n.id = none)
    (ht : t.node? target = some m) (hm : m.palette? = none) (hn : n.palette? = none) :
    u.palettes = t.palettes := by
  have hview : ∀ (k : Node) p cs, (fun k : Node => k.palette?.map fun name =>
      (name, t.paletteShowItem k)) { k with parent := p, children := cs } =
        k.palette?.map fun name => (name, t.paletteShowItem k) := fun _ _ _ => rfl
  rw [FormTree.palettes, FormTree.palettes, ha.tabNodes_eq h hid, List.filterMap_flatMap,
    List.filterMap_flatMap, List.flatMap_map]
  apply congrArg Entries.ofList
  apply List.flatMap_congr
  intro tab htab
  obtain ⟨x, hx⟩ := mem_tabNodes htab
  have hne : tab.id ≠ n.id := by
    rw [h.keyed hx]
    exact Linked.ne_of_fresh hid hx
  have htab' : (if tab.id = target then { tab with children := tab.children ++ [n.id] }
      else tab).id = tab.id := by split <;> rfl
  rw [htab', List.filterMap_congr fun k hk => ha.palette_of_mem h hid ht hm hn hk,
    ha.filterMap_childNodes h hid ht hview hne, hn]
  split <;> exact List.append_nil _

/-- The configurations of the fields, with that of the new node. -/
theorem config?_field? (ha : t.Appends u target n) (x : String) :
    (u.field? x).bind Node.config? =
      if x = n.id then n.config? else (t.field? x).bind Node.config? := by
  have hfield (n : Node) : ((some n).filter fun n => n.kind = .field).bind Node.config? =
      n.config? := by
    obtain ⟨id, slots, parent, children, content⟩ := n
    cases content <;> rfl
  rw [field?, field?, ha.node?]
  split
  · exact hfield n
  · cases t.node? x with
    | none => rfl
    | some m =>
      rw [Option.map_some, hfield, hfield]
      split <;> rfl

end Appends

theorem place_bottom {t : FormTree} {id : String} (hn : t.node? id = some n) (hne : target ≠ id)
    (ht : t.node? target = some m) (hc : m.kind.canContain n.kind = true) :
    t.place id (.bottom target) = .ok (t.relocate id (some target) .last) := by
  have hself : (Position.bottom target).target? ≠ some id := fun he => hne (Option.some.inj he)
  rw [place, hn]
  dsimp only
  rw [if_neg hself, containerInside, ht]
  dsimp only
  rw [if_pos hc]
  rfl

theorem admits_insertNode {t : FormTree} {id : String} (hid : t.node? id = none)
    (ht : t.node? target = some m) (hm : m.kind.canContain content.kind = true) :
    (t.insertNode id content).Admits (some target) content.kind := by
  refine ⟨m, ?_, hm⟩
  rw [node?_insertNode, if_neg (Linked.ne_of_fresh hid ht), ht]

variable {t : FormTree}

theorem Linked.node?_getLast (h : t.Linked loose) (htabs : t.tabs ≠ []) :
    ∃ tab, t.node? (t.tabs.getLast htabs) = some tab ∧ tab.kind = .tab := by
  obtain ⟨_, tab, htab, hk⟩ := h.mem_tabs.1 (List.getLast_mem htabs)
  exact ⟨tab, htab, hk⟩

/-- A new node is created at the end of the last tab. -/
theorem Linked.create_last (h : t.Linked loose) {id : String} (content : Content)
    (hid : t.node? id = none) (hp : ∀ name, content = .palette name → id = paletteId name)
    (hk : content.kind ≠ .tab) (htabs : t.tabs ≠ []) :
    ∃ u, t.create id content = .ok u ∧
      t.Appends u (t.tabs.getLast htabs) ⟨id, [], some (t.tabs.getLast htabs), [], content⟩ := by
  obtain ⟨tab, htab, htabk⟩ := h.node?_getLast htabs
  have he : (t.insertNode id content).ensureTab = (t.insertNode id content, t.tabs.getLast htabs) :=
    ensureTab_of_mem (by rw [tabs_insertNode, List.getLast?_eq_some_getLast htabs])
  have hadmits : (t.insertNode id content).Admits (some (t.tabs.getLast htabs)) content.kind :=
    admits_insertNode hid htab (by simpa [htabk, NodeKind.canContain] using hk)
  apply Exists.intro ((t.insertNode id content).relocate id (some (t.tabs.getLast htabs)) .last)
  constructor
  · rw [FormTree.create, hid]
    dsimp only
    rw [moveToDefault_of_ne_tab hk, he]
  · exact h.appends_insert hid hp hadmits

/-- A new node that is created, given slots and moved to the end of a container is appended to it. -/
theorem Linked.create_append (h : t.Linked loose) {id : String} (content : Content)
    (hid : t.node? id = none) (hp : ∀ name, content = .palette name → id = paletteId name)
    (hk : content.kind ≠ .tab) (slots : Slots) (ht : t.node? target = some m)
    (hm : m.kind.canContain content.kind = true) (htabs : t.tabs ≠ []) :
    ∃ u v, t.create id content = .ok u ∧
      (u.update id fun n => { n with slots }).place id (.bottom target) = .ok v ∧
      t.Appends v target ⟨id, slots, some target, [], content⟩ := by
  obtain ⟨u, hcreate, hlast⟩ := h.create_last content hid hp hk htabs
  have ha : t.Appends _ _ ⟨id, slots, some (t.tabs.getLast htabs), [], content⟩ :=
    hlast.update_slots rfl slots
  have hu := (h.create hp hcreate).update id (Node.keepsLinks_slots slots)
  obtain ⟨m', hm', hmk⟩ := ha.kind_of_ne (ne_of_fresh hid ht) ht
  have hc : m'.kind.canContain content.kind = true := by rwa [hmk]
  exact ⟨_, _, hcreate, place_bottom ha.node?_self (ne_of_fresh hid ht) hm' hc,
    ha.relocate h hu hid ⟨m', hm', hc⟩⟩

theorem Linked.insert_append (h : t.Linked loose) {id : String} {content : Content}
    (hid : t.node? id = none) (hp : ∀ name, content = .palette name → id = paletteId name)
    (ht : t.node? target = some m) (hm : m.kind.canContain content.kind = true) :
    ∃ v, (t.insertNode id content).place id (.bottom target) = .ok v ∧
      t.Appends v target ⟨id, [], some target, [], content⟩ := by
  have hn : (t.insertNode id content).node? id = some (Node.fresh id content) :=
    node?_insertNode_self t id content
  have ht' : (t.insertNode id content).node? target = some m := by
    rw [node?_insertNode, if_neg (ne_of_fresh hid ht), ht]
  exact ⟨_, place_bottom hn (ne_of_fresh hid ht) ht' hm,
    h.appends_insert hid hp (admits_insertNode hid ht hm)⟩

/-- A new line break is appended to the container that it is put into. -/
theorem Linked.lineBreak_append (h : t.Linked loose) (ht : t.node? target = some m)
    (hm : m.kind.canContain (Content.kind .lineBreak) = true) : ∃ u,
      t.lineBreak (.bottom target) = (u, .ok (lineBreakId t.nextLineBreak)) ∧
      t.Appends u target ⟨lineBreakId t.nextLineBreak, [], some target, [], .lineBreak⟩ := by
  have hnum := h.numbering t.nextLineBreak
  obtain ⟨v, hv, ha⟩ := hnum.insert_append t.node?_nextLineBreak (by rintro _ ⟨⟩) ht hm
  refine ⟨v, ?_, ha.tabs, ha.parent, ha.children, ha.node?⟩
  rw [FormTree.lineBreak, hv]

/-- A new tab with slots is one more tab at the end, and every other node is as it was. -/
theorem Linked.node?_openTab (h : t.Linked loose) {id : String} (hid : t.node? id = none)
    (slots : Slots) (x : String) :
    ((t.attachTab id).update id fun n => { n with slots }).node? x =
      if x = id then some ⟨id, slots, none, [], .tab⟩ else t.node? x := by
  rw [node?_update, h.node?_attachTab hid]
  by_cases hx : x = id <;> simp [hx, Node.fresh]

theorem Linked.childNodes_openTab (h : t.Linked loose) {id : String} (hid : t.node? id = none)
    (slots : Slots) {x : String} (hx : x ≠ id) :
    ((t.attachTab id).update id fun n => { n with slots }).childNodes x = t.childNodes x := by
  rw [childNodes, childNodes, h.node?_openTab hid, if_neg hx]
  cases hn : t.node? x with
  | none => rfl
  | some n =>
    refine List.filterMap_congr fun c hc => ?_
    rw [h.node?_openTab hid, if_neg]
    obtain ⟨k, hk, _⟩ := h.listed hn hc
    exact ne_of_fresh hid hk

theorem Linked.items_openTab (h : t.Linked loose) {id : String} (hid : t.node? id = none)
    (slots : Slots) : ((t.attachTab id).update id fun n => { n with slots }).items =
      t.items ++ [Layout.tabItem ⟨id, slots, none, [], .tab⟩] := by
  have hnode := h.node?_openTab hid slots
  have hkids {x} (hx : x ≠ id) := h.childNodes_openTab hid slots hx
  have htabs : ((t.attachTab id).update id fun n => { n with slots }).tabs = t.tabs ++ [id] :=
    h.tabs_attachTab hid
  generalize (t.attachTab id).update id (fun n => { n with slots }) = u at *
  have hself : u.node? id = some ⟨id, slots, none, [], .tab⟩ := by rw [hnode, if_pos rfl]
  have hnodes : u.tabNodes = t.tabNodes ++ [⟨id, slots, none, [], .tab⟩] := by
    rw [tabNodes, tabNodes, htabs, List.filterMap_append]
    congr 1
    · refine List.filterMap_congr fun x hx => ?_
      rw [hnode, if_neg]
      rintro rfl
      exact h.not_mem_tabs_of_fresh hid hx
    · simp [hself]
  rw [FormTree.items, FormTree.items, hnodes, List.flatMap_append, List.flatMap_singleton]
  congr 1
  · refine List.flatMap_congr fun tab htab => ?_
    obtain ⟨x, hx⟩ := mem_tabNodes htab
    have hne : tab.id ≠ id := by
      rw [h.keyed hx]
      exact ne_of_fresh hid hx
    rw [itemsOfTab, itemsOfTab, hkids hne]
  · rw [itemsOfTab, childNodes, hself]
    rfl

end FormLayout.FormTree
