import FormLayout.Proofs.Form.Walk
/-!
The kinds of the nodes by id. Moves keep them, and creations add one. They decide whether a node can
be created under an id, and whether it can go into a container.
-/

namespace FormLayout
set_option autoImplicit true

namespace FormTree

def kind? (t : FormTree) (id : String) : Option NodeKind := (t.node? id).map Node.kind

theorem kind?_of_node? {t : FormTree} {id : String} (hn : t.node? id = some n) :
    t.kind? id = some n.kind := by
  rw [kind?, hn, Option.map_some]

theorem kind?_eq_none_iff {t : FormTree} {id : String} : t.kind? id = none ↔ t.node? id = none :=
  Option.map_eq_none_iff

theorem has_iff_kind? {t : FormTree} {id : String} : t.has id = true ↔ ∃ k, t.kind? id = some k := by
  rw [has_iff]
  constructor
  · intro ⟨n, hn⟩
    exact ⟨n.kind, kind?_of_node? hn⟩
  · intro ⟨k, hk⟩
    obtain ⟨n, hn, _⟩ := Option.map_eq_some_iff.1 hk
    exact ⟨n, hn⟩

theorem field?_isSome_iff {t : FormTree} {id : String} :
    (t.field? id).isSome = true ↔ t.kind? id = some .field := by
  rw [field?, kind?]
  cases t.node? id with
  | none => simp
  | some n => simp [Option.filter_some]

theorem palette?_isSome_iff {t : FormTree} {name : String} :
    (t.palette? name).isSome = true ↔ t.kind? (paletteId name) = some .palette := by
  rw [palette?, kind?]
  cases t.node? (paletteId name) with
  | none => simp
  | some n => simp [Option.filter_some]

theorem kind?_update (t : FormTree) (id : String) (hf : ∀ n, (f n).kind = n.kind) (x : String) :
    (t.update id f).kind? x = t.kind? x := by
  rw [kind?, kind?, node?_update]
  split
  · rw [Option.map_map]
    congr 1
    funext n
    exact hf n
  · rfl

theorem kind?_insertNode (t : FormTree) (id : String) (content : Content) (x : String) :
    (t.insertNode id content).kind? x = if x = id then some content.kind else t.kind? x := by
  rw [kind?, kind?, node?_insertNode]
  split <;> rfl

theorem kind?_detach (t : FormTree) (id x : String) : (t.detach id).kind? x = t.kind? x := by
  rw [detach]
  split
  · rw [kind?_update, kind?_update] <;> exact fun _ => rfl
  · rfl

theorem kind?_attach (t : FormTree) (id : String) (c : Option String) (a : Anchor) (x : String) :
    (t.attach id c a).kind? x = t.kind? x := by
  cases c with
  | none => rfl
  | some parent =>
    rw [attach, kind?_update, kind?_update] <;> exact fun _ => rfl

theorem kind?_relocate (t : FormTree) (id : String) (c : Option String) (a : Anchor) (x : String) :
    (t.relocate id c a).kind? x = t.kind? x := by
  rw [relocate, kind?_attach, kind?_detach]

theorem kind?_attachTab (t : FormTree) (id x : String) :
    (t.attachTab id).kind? x = if x = id then some .tab else t.kind? x := by
  rw [attachTab, kind?_relocate, kind?_insertNode]
  rfl

theorem kind?_moveToDefault {t : FormTree} (ht : t.tabs ≠ []) (id : String) (kind : NodeKind)
    (x : String) : (t.moveToDefault id kind).kind? x = t.kind? x := by
  rw [moveToDefault]
  split
  · exact kind?_relocate t id none .last x
  · dsimp only
    rw [kind?_relocate, ensureTab_of_ne_nil ht]

theorem kind?_ensureTab {t : FormTree} (hx : t.kind? x = some k) :
    t.ensureTab.1.kind? x = some k := by
  cases ht : t.tabs.getLast? with
  | some tab => rwa [ensureTab_of_mem ht]
  | none =>
    have hne : x ≠ t.nextTabId := by
      rintro rfl
      rw [kind?_eq_none_iff.2 t.node?_nextTabId] at hx
      cases hx
    rw [ensureTab_of_nil (List.getLast?_eq_none_iff.1 ht),
      kind?_update _ _ (Node.keepsLinks_setLabel _).kind, kind?_attachTab, if_neg hne, hx]

/-- After a creation the node is there, and the others are as they were. -/
theorem kind?_create {t u : FormTree} {id : String} {content : Content} (ht : t.tabs ≠ [])
    (hu : t.create id content = .ok u) (x : String) :
    u.kind? x = if x = id then some content.kind else t.kind? x := by
  rcases create_cases hu with ⟨rfl, n, hn, hk⟩ | ⟨_, rfl⟩
  · split
    · next he => rw [he, kind?_of_node? hn, hk]
    · rfl
  · have hne : (t.insertNode id content).tabs ≠ [] := ht
    rw [kind?_moveToDefault hne, kind?_insertNode]

theorem kind?_create_tab {t u : FormTree} {id : String} (hid : t.node? id = none)
    (hu : t.create id .tab = .ok u) (x : String) :
    u.kind? x = if x = id then some .tab else t.kind? x := by
  rcases create_cases hu with ⟨_, n, hn, _⟩ | ⟨_, rfl⟩
  · cases hid.symm.trans hn
  · exact kind?_attachTab t id x

/-- A node is of the kind that it was created as. -/
theorem kind_of_create {t u : FormTree} {id : String} {content : Content}
    (hu : t.create id content = .ok u) (hn : u.node? id = some n) : n.kind = content.kind := by
  rcases create_cases hu with ⟨rfl, m, hm, hk⟩ | ⟨_, rfl⟩
  · cases hm.symm.trans hn
    exact hk
  · have hnew : (t.insertNode id content).kind? id = some content.kind := by
      rw [kind?_insertNode, if_pos rfl]
    have hmoved : ((t.insertNode id content).moveToDefault id content.kind).kind? id =
        some content.kind := by
      rw [moveToDefault]
      split
      · rw [kind?_relocate, hnew]
      · dsimp only
        rw [kind?_relocate, kind?_ensureTab hnew]
    exact Option.some.inj ((kind?_of_node? hn).symm.trans hmoved)

namespace Linked

variable {t u : FormTree} {loose : String → Prop}

theorem kind?_place (h : t.Linked loose) {id : String} (hu : t.place id position = .ok u)
    (ht : t.tabs ≠ []) (x : String) : u.kind? x = t.kind? x := by
  obtain ⟨n, hn, ⟨_, rfl⟩ | ⟨_, s, c, a, hs, hc, rfl⟩⟩ := h.place_cases hu
  · rfl
  · have hst : s = t := by
      rcases hs with rfl | ⟨rfl, _⟩
      · rfl
      · exact ensureTab_of_ne_nil ht
    subst hst
    exact kind?_relocate _ id c a x

/-- A tree without tabs is empty, so its first tab is all that it has then. -/
theorem kind?_ensureTab_of_nil (h : t.Linked fun _ => False) (ht : t.tabs = []) (x : String) :
    t.ensureTab.1.kind? x = if x = toString 0 then some .tab else none := by
  have hid : t.nextTabId = toString 0 := nextTabId_of_nil ht (h.node?_of_nil ht _)
  have hnone : t.kind? x = none := kind?_eq_none_iff.2 (h.node?_of_nil ht x)
  rw [ensureTab_of_nil ht, kind?_update _ _ (Node.keepsLinks_setLabel _).kind,
    kind?_attachTab, hid, hnone]

theorem kind?_lineBreak (h : t.Linked loose) {id : String} (ht : t.tabs ≠ [])
    (hu : t.lineBreak position = (u, .ok id)) (x : String) :
    u.kind? x = if x = lineBreakId t.nextLineBreak then some .lineBreak else t.kind? x := by
  obtain ⟨rfl, hp⟩ := lineBreak_ok_cases hu
  rw [h.insert_lineBreak.kind?_place hp ht, kind?_insertNode]
  rfl

end Linked

/-- Nothing of another kind stands in the way of a creation. -/
theorem exists_create {t : FormTree} {id : String} {content : Content}
    (h : ∀ k, t.kind? id = some k → k = content.kind) : ∃ u, t.create id content = .ok u := by
  rw [create]
  cases hn : t.node? id with
  | none => exact ⟨_, rfl⟩
  | some n => exact ⟨t, if_pos (h n.kind (kind?_of_node? hn))⟩

theorem kind_eq_of_create {t u : FormTree} {id : String} {content : Content}
    (hu : t.create id content = .ok u) (hk : t.kind? id = some k) : k = content.kind := by
  rcases create_cases hu with ⟨_, n, hn, hnk⟩ | ⟨hnone, _⟩
  · rw [kind?_of_node? hn] at hk
    rw [← Option.some.inj hk, hnk]
  · rw [kind?_eq_none_iff.2 hnone] at hk
    cases hk

/-- The positions at the end of a container, or at the default place, where a kind may stand. -/
inductive Takes (t : FormTree) (kind : NodeKind) : Position → Prop where
  | default : Takes t kind .default
  | bottom : t.kind? target = some k → k.canContain kind = true → Takes t kind (.bottom target)

theorem Takes.mono {t u : FormTree} (h : t.Takes kind p)
    (hu : ∀ x k, t.kind? x = some k → u.kind? x = some k) : u.Takes kind p := by
  cases h with
  | default => exact .default
  | bottom ht hc => exact .bottom (hu _ _ ht) hc

theorem Takes.exists_place {t : FormTree} (h : t.Takes kind p) {id : String}
    (hid : t.kind? id = some kind) : ∃ u, t.place id p = .ok u := by
  obtain ⟨n, hn, rfl⟩ := Option.map_eq_some_iff.1 hid
  rw [place, hn]
  dsimp only
  split
  · exact ⟨t, rfl⟩
  · cases h with
    | default => exact ⟨_, rfl⟩
    | @bottom target k ht hc =>
      obtain ⟨m, hm, rfl⟩ := Option.map_eq_some_iff.1 ht
      refine ⟨t.relocate id (some target) .last, ?_⟩
      dsimp only
      rw [containerInside, hm]
      dsimp only
      rw [if_pos hc]
      rfl

theorem Takes.exists_lineBreak {t : FormTree} (h : t.Takes .lineBreak p) :
    ∃ u, t.lineBreak p = (u, .ok (lineBreakId t.nextLineBreak)) := by
  have hn : t.kind? (lineBreakId t.nextLineBreak) = none :=
    kind?_eq_none_iff.2 t.node?_nextLineBreak
  have hi : ({ t with lineBreaks := t.nextLineBreak }.insertNode (lineBreakId t.nextLineBreak)
      .lineBreak).Takes .lineBreak p := by
    apply h.mono
    intro x k hk
    rw [kind?_insertNode, if_neg]
    · exact hk
    · rintro rfl
      cases hn.symm.trans hk
  have hself : ({ t with lineBreaks := t.nextLineBreak }.insertNode (lineBreakId t.nextLineBreak)
      .lineBreak).kind? (lineBreakId t.nextLineBreak) = some .lineBreak := by
    rw [kind?_insertNode, if_pos rfl]
    rfl
  obtain ⟨u, hu⟩ := hi.exists_place hself
  exact ⟨u, by rw [lineBreak, hu]⟩

end FormTree

end FormLayout
