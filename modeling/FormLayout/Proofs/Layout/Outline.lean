import FormLayout.Proofs.Layout.RoundTrip
/-!
What the items of a tree tell about its fields and palettes: the container of each, their order and
their labels.
-/

namespace FormLayout
set_option autoImplicit true

/-- What a field or palette shows of itself. -/
structure Member where
  kind : NodeKind
  id : String
  label : Option String
  deriving DecidableEq, Repr

def Node.member? (n : Node) : Option Member :=
  if n.kind = .field ∨ n.kind = .palette then some ⟨n.kind, n.id, n.label?⟩ else none

/-- The fields and palettes of a container in their order. -/
def FormTree.members (t : FormTree) (id : String) : List Member :=
  (t.childNodes id).filterMap Node.member?

/-- The fields and palettes of each tab in their order, each with the fields inside it. -/
def FormTree.outline (t : FormTree) : List (List (Member × List Member)) :=
  t.tabNodes.map fun tab => (t.childNodes tab.id).filterMap fun n =>
    n.member?.map fun m => (m, t.members n.id)

namespace Layout

/-- The field or palette that an item stands for. -/
def memberOf? (item : Item) : Option Member :=
  match item.kind, item.reference? with
  | .field id, _ => some ⟨.field, id, Slots.label? (item.drop 1)⟩
  | .special _, some name => some ⟨.palette, paletteId name, Slots.label? (item.drop 1).dropLast⟩
  | .special _, none => none

theorem label?_dropBlank (slots : Slots) :
    Slots.label? (slots.reverse.dropWhile (· = "")).reverse = slots.label? := by
  induction slots using List.reverseRecOn with
  | nil => rfl
  | append_singleton slots last ih =>
    rw [List.reverse_concat, List.dropWhile_cons]
    split
    · next hl =>
      rw [ih]
      cases slots with
      | nil => simpa [Slots.label?] using hl
      | cons first rest => rfl
    · rw [List.reverse_cons, List.reverse_reverse]

theorem memberOf?_fieldItem (h : SpecialToken.ofPart? n.id = none)
    (hc : n.content = .field config) : memberOf? (fieldItem n) = n.member? := by
  have hk : n.kind = .field := by rw [Node.kind, hc]; rfl
  have hm : n.member? = some ⟨.field, n.id, n.label?⟩ := by rw [Node.member?, if_pos (.inl hk), hk]
  rw [hm, memberOf?, kind_fieldItem h]
  exact congrArg (fun l => some (Member.mk .field n.id l)) (label?_dropBlank n.slots)

theorem memberOf?_paletteItem (hid : n.id = paletteId name) (hc : n.content = .palette name) :
    memberOf? (paletteItem n name) = n.member? := by
  have hk : n.kind = .palette := by rw [Node.kind, hc]; rfl
  have hm : n.member? = some ⟨.palette, n.id, n.label?⟩ := by
    rw [Node.member?, if_pos (.inr hk), hk]
  have hl : Slots.label? ((paletteItem n name).drop 1).dropLast = n.label? := by
    rw [paletteItem, List.drop_one, List.tail_cons, List.dropLast_concat, Node.label?]
    cases hs : n.slots with
    | nil => rfl
    | cons first rest => rfl
  rw [hm, memberOf?, kind_paletteItem, reference?_paletteItem, hid]
  exact congrArg (fun l => some (Member.mk .palette (paletteId name) l)) hl

variable {t u : FormTree} {loose loose' : String → Prop} {label label' : String}

theorem memberOf?_itemInTab? (hl : t.Linked loose) (hp : t.Holds label Node.Plain) {id : String}
    (hn : t.node? id = some n) : (itemInTab? n).bind memberOf? = n.member? := by
  cases hc : n.content with
  | field config =>
    rw [itemInTab?, hc]
    exact memberOf?_fieldItem ((hp.nodes hn).field hc).2.2 hc
  | palette name =>
    rw [itemInTab?, hc]
    refine memberOf?_paletteItem ?_ hc
    rw [hl.keyed hn]
    exact hl.palette_keyed hn (Node.palette?_eq_some_iff.2 hc)
  | tab => simp [itemInTab?, hc, Node.member?, Node.kind, Content.kind]
  | lineBreak => simp [itemInTab?, hc, Node.member?, Node.kind, Content.kind]

theorem memberOf?_tabItem (n : Node) : memberOf? (tabItem n) = none := by
  rw [memberOf?, kind_tabItem, Item.reference?_of_kind (by rw [kind_tabItem]; simp)]

/-- Below a palette or a field only fields count. -/
theorem members_eq_inside (hl : t.Linked loose) (hp : t.Holds label Node.Plain) {id : String}
    (hn : t.node? id = some n) (hk : n.kind ≠ .tab) :
    t.members id = (t.inside id).filterMap memberOf? := by
  rw [FormTree.members, FormTree.inside, List.filterMap_filterMap]
  refine List.filterMap_congr fun k hm => ?_
  rw [FormTree.childNodes, hn] at hm
  obtain ⟨c, hc, hkc⟩ := List.mem_filterMap.1 hm
  obtain ⟨n', k', hn', hk', hcan⟩ := hl.node_of_lists ⟨n, hn, hc⟩
  cases hn.symm.trans hn'
  cases hkc.symm.trans hk'
  cases hkk : k.content with
  | field config =>
    rw [itemInPalette?, hkk]
    exact (memberOf?_fieldItem ((hp.nodes hkc).field hkk).2.2 hkk).symm
  | lineBreak =>
    have hnone : memberOf? [SpecialToken.lineBreak.dashed] = none := by
      rw [memberOf?, kind_lineBreakItem,
        Item.reference?_of_kind (by rw [kind_lineBreakItem]; simp)]
    rw [itemInPalette?, hkk]
    simp [Node.member?, Node.kind, Content.kind, hkk, hnone]
  | tab =>
    have hkt : k.kind = .tab := by rw [Node.kind, hkk]; rfl
    exact absurd hkt (NodeKind.ne_tab_of_canContain hcan)
  | palette name =>
    have hkp : k.kind = .palette := by rw [Node.kind, hkk]; rfl
    rw [hkp] at hcan
    cases hnk : n.kind <;> rw [hnk] at hcan hk <;> first | exact absurd rfl hk | cases hcan

/-- The members that items stand for, each with those inside it. -/
def rowOf (inside : String → List Item) (items : List Item) : List (Member × List Member) :=
  items.filterMap fun item => (memberOf? item).map fun m =>
    (m, if m.kind = .palette then (inside m.id).filterMap memberOf? else [])

theorem row_eq (hl : t.Linked loose) (hp : t.Holds label Node.Plain) (tab : Node) :
    ((t.childNodes tab.id).filterMap fun n => n.member?.map fun m => (m, t.members n.id)) =
      rowOf t.inside (t.itemsOfTab tab) := by
  rw [rowOf, FormTree.itemsOfTab, List.filterMap_cons_none (by rw [memberOf?_tabItem]; rfl),
    List.filterMap_filterMap]
  refine List.filterMap_congr fun n hn => ?_
  obtain ⟨x, hn⟩ := FormTree.mem_childNodes hn
  have hmember := memberOf?_itemInTab? hl hp hn
  have hbind (o : Option Item) (g : Member → Member × List Member) :
      (o.bind fun item => (memberOf? item).map g) = (o.bind memberOf?).map g := by
    cases o <;> rfl
  rw [hbind, hmember, Node.member?]
  split
  · next hk =>
    have hnt : n.kind ≠ .tab := by rcases hk with hk | hk <;> rw [hk] <;> simp
    rw [Option.map_some, Option.map_some, hl.keyed hn, members_eq_inside hl hp hn hnt]
    rcases hk with hk | hk
    · have hnone : t.inside x = [] := by
        have hkids : n.children = [] := List.eq_nil_iff_forall_not_mem.2 fun c hc => by
          obtain ⟨n', k, hn', _, hcan⟩ := hl.node_of_lists ⟨n, hn, hc⟩
          cases hn.symm.trans hn'
          rw [hk] at hcan
          cases hcan
        rw [FormTree.inside, FormTree.childNodes, hn]
        simp [hkids]
      rw [hnone, if_neg (by rw [hk]; simp)]
      rfl
    · rw [if_pos hk]
  · rfl

theorem eq_of_flatten_eq {p : α → Prop} {l l' : List (List α)}
    (hl : ∀ x ∈ l, ∃ a rest, x = a :: rest ∧ p a ∧ ∀ b ∈ rest, ¬ p b)
    (hl' : ∀ x ∈ l', ∃ a rest, x = a :: rest ∧ p a ∧ ∀ b ∈ rest, ¬ p b)
    (h : l.flatten = l'.flatten) : l = l' := by
  induction l generalizing l' with
  | nil =>
    cases l' with
    | nil => rfl
    | cons y l' =>
      obtain ⟨a, rest, rfl, _⟩ := hl' y List.mem_cons_self
      cases h
  | cons x l ih =>
    cases l' with
    | nil =>
      obtain ⟨a, rest, rfl, _⟩ := hl x List.mem_cons_self
      cases h
    | cons y l' =>
      have htail := fun z hz => hl z (List.mem_cons_of_mem x hz)
      have htail' := fun z hz => hl' z (List.mem_cons_of_mem y hz)
      obtain ⟨a, rest, rfl, _, hrest⟩ := hl x List.mem_cons_self
      obtain ⟨a', rest', rfl, _, hrest'⟩ := hl' y List.mem_cons_self
      -- What one first piece has beyond the other would start with the head of a later piece.
      have hkey {m : List (List α)} {c s : List α}
          (hm : ∀ z ∈ m, ∃ a rest, z = a :: rest ∧ p a ∧ ∀ b ∈ rest, ¬ p b)
          (hc : ∀ b ∈ c, ¬ p b) (he : m.flatten = c ++ s) : c = [] := by
        cases c with
        | nil => rfl
        | cons b c =>
          cases m with
          | nil => cases he
          | cons z m =>
            obtain ⟨d, _, rfl, hd, _⟩ := hm z List.mem_cons_self
            rw [List.flatten_cons, List.cons_append, List.cons_append, List.cons.injEq] at he
            exact absurd (he.1 ▸ hd) (hc b List.mem_cons_self)
      rw [List.flatten_cons, List.flatten_cons, List.cons_append, List.cons_append,
        List.cons.injEq] at h
      obtain ⟨rfl, h⟩ := h
      rcases List.append_eq_append_iff.1 h with ⟨c, rfl, hc⟩ | ⟨c, rfl, hc⟩
      · have hnil := hkey htail (fun b hb => hrest' b (List.mem_append_right _ hb)) hc
        rw [hnil, List.nil_append] at hc
        rw [hnil, List.append_nil, ih htail htail' hc]
      · have hnil := hkey htail' (fun b hb => hrest b (List.mem_append_right _ hb)) hc
        rw [hnil, List.nil_append] at hc
        rw [hnil, List.append_nil, ih htail htail' hc.symm]

theorem itemsOfTab_pieces (hp : t.Holds label Node.Plain) :
    ∀ x ∈ t.tabNodes.map t.itemsOfTab, ∃ a rest, x = a :: rest ∧
      a.kind = .special .tab ∧ ∀ b ∈ rest, ¬ Item.kind b = .special .tab := by
  intro x hx
  obtain ⟨tab, _, rfl⟩ := List.mem_map.1 hx
  refine ⟨_, _, rfl, kind_tabItem tab, fun b hb => ?_⟩
  obtain ⟨n, hn, hi⟩ := List.mem_filterMap.1 hb
  obtain ⟨_, hn⟩ := FormTree.mem_childNodes hn
  rcases itemInTab?_cases hi with ⟨config, hc, rfl⟩ | ⟨name, hc, rfl⟩
  · simp [kind_fieldItem ((hp.nodes hn).field hc).2.2]
  · simp [kind_paletteItem]

/-- Trees that are written as the same items, also inside their palettes, have the same outline. -/
theorem outline_eq (hl : t.Linked loose) (hp : t.Holds label Node.Plain) (hl' : u.Linked loose')
    (hp' : u.Holds label' Node.Plain) (hi : u.items = t.items)
    (hin : ∀ id n name, t.node? id = some n → n.content = .palette name →
      u.inside id = t.inside id) : u.outline = t.outline := by
  have hrows {v : FormTree} {loose label} (hl : v.Linked loose) (hp : v.Holds label Node.Plain) :
      v.outline = (v.tabNodes.map v.itemsOfTab).map (rowOf v.inside) := by
    rw [FormTree.outline, List.map_map]
    exact List.map_congr_left fun tab _ => row_eq hl hp tab
  have hsplit : u.tabNodes.map u.itemsOfTab = t.tabNodes.map t.itemsOfTab :=
    eq_of_flatten_eq (itemsOfTab_pieces hp') (itemsOfTab_pieces hp) hi
  rw [hrows hl hp, hrows hl' hp', hsplit, List.map_map, List.map_map]
  refine List.map_congr_left fun tab _ => ?_
  rw [Function.comp_apply, Function.comp_apply, rowOf, rowOf]
  refine List.filterMap_congr fun item hitem => ?_
  rcases List.mem_cons.1 hitem with rfl | hitem
  · rw [memberOf?_tabItem]
    rfl
  · obtain ⟨n, hn, hitem⟩ := List.mem_filterMap.1 hitem
    obtain ⟨x, hn⟩ := FormTree.mem_childNodes hn
    have hmember := memberOf?_itemInTab? hl hp hn
    rw [hitem, Option.bind_some] at hmember
    rw [hmember, Node.member?]
    split
    · next hk =>
      rw [Option.map_some, Option.map_some]
      rcases hk with hk | hk
      · rw [if_neg (by rw [hk]; simp), if_neg (by rw [hk]; simp)]
      · obtain ⟨name, hc⟩ := Content.kind_palette hk
        rw [if_pos hk, if_pos hk, hl.keyed hn, hin x n name hn hc]
    · rfl

/-- Such trees are written as the same layout, too. -/
theorem layout_eq (hl : t.Linked loose) (hp : t.Holds label Node.Plain) (hl' : u.Linked loose')
    (hp' : u.Holds label' Node.Plain) (hi : u.items = t.items)
    (hin : ∀ id n name, t.node? id = some n → n.content = .palette name →
      u.inside id = t.inside id) : u.layout = t.layout := by
  have hpal : u.layout.palettes = t.layout.palettes := by
    rw [hl.layout_palettes hp, hl'.layout_palettes hp', hi]
    refine congrArg Entries.ofList (List.filterMap_congr fun item hitem => ?_)
    cases FormTree.writes_of_mem hitem with
    | tab hn =>
      rw [Item.reference?_of_kind (by rw [kind_tabItem]; simp)]
      rfl
    | field hn hc =>
      rw [Item.reference?_of_kind (by rw [kind_fieldItem ((hp.nodes hn).field hc).2.2]; simp)]
      rfl
    | @palette x name n hn hc =>
      have hid := hl.palette_keyed hn (Node.palette?_eq_some_iff.2 hc)
      rw [reference?_paletteItem, Option.map_some, Option.map_some, ← hid, hin x n name hn hc]
  have hshow : u.layout.showItem = t.layout.showItem := by
    rw [FormTree.layout_showItem, FormTree.layout_showItem, hi]
  have hu : u.layout = ⟨u.layout.showItem, u.layout.palettes⟩ := rfl
  rw [hu, hshow, hpal]

end Layout

end FormLayout
