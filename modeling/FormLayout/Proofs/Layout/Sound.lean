import FormLayout.Proofs.Form.Contents
import FormLayout.Proofs.Form.Runs
import FormLayout.Proofs.Layout.Steps
/-!
What holds of a tree throughout the reading of a layout, also when the reading fails: its links fit,
its tabs are numbered, its texts are plain, and every field has the configuration that is known of
it.
-/

namespace FormLayout
set_option autoImplicit true

/-- A field has the configuration that is known of it, and a palette is stored. -/
def Node.Known (around : Layout.Surroundings) (columns : Columns) (n : Node) : Prop :=
  (∀ config, n.content = .field config → around.config? columns n.id = some config) ∧
    ∀ name, n.content = .palette name → around.palettes.has name = true

theorem Node.Known.setLabel (h : Node.Known around columns n) (label : Option String) :
    (n.setLabel label).Known around columns := by
  obtain ⟨slots, he⟩ := n.setLabel_eq label
  rw [he]
  exact h

theorem Node.lasting_known (around : Layout.Surroundings) (columns : Columns) (label : String) :
    Node.Lasting label (Node.Known around columns) where
  place _ _ h := h
  tab _ := ⟨fun _ => (nomatch ·), fun _ => (nomatch ·)⟩
  lineBreak _ := ⟨fun _ => (nomatch ·), fun _ => (nomatch ·)⟩
  label h := h.setLabel _

/-- What a reading keeps of every node. Without a plain default label its texts are left open. -/
def Node.Read (label : String) (around : Layout.Surroundings) (columns : Columns) (n : Node) :
    Prop :=
  (Text.Plain label → n.Plain) ∧ n.Known around columns

theorem Node.lasting_read (around : Layout.Surroundings) (columns : Columns) (label : String) :
    Node.Lasting label (Node.Read label around columns) where
  place p cs h := ⟨fun hl => (Node.lasting_plain hl).place p cs (h.1 hl), h.2⟩
  tab id :=
    ⟨fun hl => (Node.lasting_plain hl).tab id, (Node.lasting_known around columns label).tab id⟩
  lineBreak id := ⟨fun hl => (Node.lasting_plain hl).lineBreak id,
    (Node.lasting_known around columns label).lineBreak id⟩
  label h := ⟨fun hl => (Node.lasting_plain hl).label (h.1 hl), h.2.setLabel _⟩

theorem Node.read_palette (hname : Text.Plain name) (hs : around.palettes.has name = true)
    {id : String} : Node.Read label around columns (Node.fresh id (.palette name)) := by
  refine ⟨fun _ => ⟨by simp [Node.fresh], (nomatch ·), fun he => ?_⟩,
    fun _ => (nomatch ·), fun _ he => ?_⟩
  · cases he
    exact hname
  · cases he
    exact hs

namespace Layout

structure Reading.Sound (around : Surroundings) (label : String) (r : Reading) : Prop where
  linked : r.tree.Linked fun _ => False
  numbered : r.tree.tabs = (List.range r.tree.tabs.length).map toString
  holds : r.tree.Holds label (Node.Read label around r.columns)

/-- A sound reading with a tab, in a tree that has the nodes the reading goes on to refer to. -/
structure Reading.Started (around : Surroundings) (label : String) (kept : String → Prop)
    (r : Reading) : Prop extends Reading.Sound around label r where
  tabs_ne_nil : r.tree.tabs ≠ []
  opened {id : String} : r.tab = some id → r.tree.has id = true
  has {id : String} : kept id → r.tree.has id = true

namespace Reading

variable {around : Surroundings} {label : String} {kept : String → Prop} {r : Reading}

theorem Sound.config?_eq (h : r.Sound around label) {id : String}
    (hc : (r.tree.field? id).bind Node.config? = some config) :
    around.config? r.columns id = some config := by
  obtain ⟨n, hf, hc⟩ := Option.bind_eq_some_iff.1 hc
  have hn := (Option.filter_eq_some_iff.1 hf).1
  have hk := (h.holds.nodes hn).2.1 config (Node.config?_eq_some_iff.1 hc)
  rwa [h.linked.keyed hn] at hk

theorem Started.keep (h : r.Started around label kept) {tree : FormTree}
    (hl : tree.Linked fun _ => False) (ht : tree.tabs = r.tree.tabs)
    (hh : tree.Holds label (Node.Read label around r.columns))
    (hx : ∀ x, r.tree.has x = true → tree.has x = true) :
    { r with tree }.Started around label kept :=
  ⟨⟨hl, by rw [ht]; exact h.numbered, hh⟩, by rw [ht]; exact h.tabs_ne_nil,
    fun ht => hx _ (h.opened ht), fun hk => hx _ (h.has hk)⟩

theorem Started.forget {id : String} (h : r.Started around label fun x => x = id ∨ kept x) :
    r.Started around label kept :=
  ⟨h.toSound, h.tabs_ne_nil, h.opened, fun hk => h.has (.inr hk)⟩

theorem Started.ask (h : r.Started around label kept) (id : String) :
    (r.ask around id).Started around label kept := by
  rw [Reading.ask]
  split
  · exact ⟨⟨h.linked, h.numbered, h.holds⟩, h.tabs_ne_nil, h.opened, h.has⟩
  · exact h

/-- An empty configuration may be added for a field that is known nowhere. -/
theorem Started.synthesize (h : r.Started around label kept) {id : String}
    (hid : around.config? r.columns id = none) :
    { r with columns := r.columns.put id [] }.Started around label kept := by
  refine ⟨⟨h.linked, h.numbered, h.holds.label_eq, fun {x n} hx =>
      ⟨(h.holds.nodes hx).1, fun config hc => ?_, (h.holds.nodes hx).2.2⟩⟩,
    h.tabs_ne_nil, h.opened, h.has⟩
  have hk := (h.holds.nodes hx).2.1 config hc
  rw [← hk]
  have hne : n.id ≠ id := by
    intro he
    rw [he, hid] at hk
    cases hk
  simp only [Surroundings.config?, Entries.get?_put_of_ne _ _ hne]

theorem Started.target_position (h : r.Started around label kept) {id : String}
    (hid : r.position.target? = some id) : r.tree.has id = true := by
  cases ht : r.tab with
  | none =>
    rw [position, ht] at hid
    cases hid
  | some tab =>
    rw [position, ht] at hid
    cases hid
    exact h.opened ht

end Reading

namespace Surroundings

theorem config?_synthesized (around : Surroundings) {columns : Columns} {id : String}
    (hid : around.config? columns id = none) :
    around.config? (columns.put id []) id = some [] := by
  simp only [config?, Entries.get?_put_self] at hid ⊢
  cases hp : around.parent with
  | none => rfl
  | some lookup =>
    simp only [hp] at hid ⊢
    cases hl : lookup id with
    | none => rfl
    | some inherited =>
      rw [hl] at hid
      cases hc : columns.get? id <;> rw [hc] at hid <;> cases hid

end Surroundings

namespace Step

open Reading

variable {around : Surroundings} {label : String} {kept : String → Prop} {r : Reading}

theorem ends_put {id : String} {content : Content} (hk : content.kind ≠ .tab)
    (hp : ∀ name, content = .palette name → id = paletteId name) (hs : ∀ s ∈ slots, Text.Plain s)
    (p : Position) (hr : r.Started around label kept)
    (hn : r.tree.node? id = none →
      Node.Read label around r.columns (Node.fresh id content)) :
    (put id content slots p).Ends r (Started around label fun x => x = id ∨ kept x)
      (Started around label kept) := by
  cases hu : r.tree.create id content with
  | error e => exact .of_error (by rw [put_eq, hu]) hr
  | ok u =>
    have hself := hr.linked.create_self hp hu
    have hlast := Node.lasting_read around r.columns label
    have hread : ∀ n, Node.Read label around r.columns n →
        Node.Read label around r.columns { n with slots } :=
      fun n hn => ⟨fun hl => (hn.1 hl).withSlots hs, hn.2⟩
    have hv : { r with tree := u.update id fun n => { n with slots } }.Started around label
        fun x => x = id ∨ kept x := by
      have hx {x} (hx : r.tree.has x = true) :
          (u.update id fun n => { n with slots }).has x = true := by
        rw [FormTree.Linked.has_update]
        exact (hr.linked.retains_create hp hu).has hx
      have hsame := hr.keep ((hr.linked.create hp hu).update id (Node.keepsLinks_slots slots))
        ((FormTree.tabs_update u id _).trans (hr.linked.tabs_create hp hk hr.tabs_ne_nil hu))
        ((hr.holds.create hlast hn hu).update id hread) fun x => hx
      refine ⟨hsame.toSound, hsame.tabs_ne_nil, hsame.opened, ?_⟩
      rintro x (rfl | hkept)
      · obtain ⟨m, hm, _⟩ := hself
        exact (FormTree.Linked.has_update u x x _).trans (FormTree.has_iff.2 ⟨m, hm⟩)
      · exact hsame.has hkept
    cases hv' : (u.update id fun n => { n with slots }).place id p with
    | error e =>
      refine .of_error (e := e) (by simp only [put_eq, hu, hv']) hv.forget
    | ok v =>
      have hkind (n : Node) (hn : (u.update id fun n => { n with slots }).node? id = some n) :
          n.kind ≠ .tab := by
        obtain ⟨m, hm, hmk⟩ := hself
        rw [FormTree.node?_update, if_pos rfl, hm] at hn
        cases hn
        exact hmk ▸ hk
      refine .of_ok (a := ()) (by simp only [put_eq, hu, hv']; rfl) ?_
      exact hv.keep ((hv.linked.place hv').congr fun x => ⟨fun h => h.1, False.elim⟩)
        (hv.linked.tabs_place hv' hkind hv.tabs_ne_nil) (hv.holds.place hlast hv')
        fun x => (hv.linked.retains_place hv').has

theorem ends_lineBreak (p : Position) (hr : r.Started around label kept)
    (hp : ∀ id, p.target? = some id → r.tree.has id = true) :
    (lineBreak p).Ends r (Started around label kept) (Started around label kept) := by
  have hkeep : { r with tree := (r.tree.lineBreak p).1 }.Started around label kept := by
    obtain ⟨loose, hl, hle⟩ := hr.linked.joined.lineBreak p
    exact hr.keep (hl.congr fun x => ⟨hle hp x, False.elim⟩)
      (hr.linked.tabs_lineBreak hr.tabs_ne_nil)
      (hr.holds.lineBreak (Node.lasting_read _ _ _) p) fun x => (hr.linked.retains_lineBreak p).has
  cases h : r.tree.lineBreak p with
  | mk tree answer =>
    rw [h] at hkeep
    cases answer with
    | ok id => exact .of_ok (a := ()) (by rw [lineBreak_eq, h]) hkeep
    | error e => exact .of_error (e := e) (by rw [lineBreak_eq, h]) hkeep

theorem ends_addField (inPalette : Bool) {id : String} (hid : Text.Plain id)
    (hspecial : SpecialToken.ofPart? id = none) (hs : ∀ s ∈ slots, Text.Plain s) (p : Position)
    (hr : r.Started around label kept) :
    (addField around inPalette id slots p).Ends r (Started around label kept)
      (Started around label kept) := by
  rw [Ends, addField_eq]
  by_cases hne : id = ""
  · rw [if_pos hne]
    exact hr
  · rw [if_neg hne]
    have hput {config} {r : Reading} (hr : r.Started around label kept)
        (hc : r.tree.node? id = none → around.config? r.columns id = some config) :
        (placeField id config slots p).Ends r (Started around label kept)
          (Started around label kept) := by
      rw [placeField_eq]
      refine (ends_put (by simp [Content.kind]) (by simp) hs p hr fun hnone => ?_).imp
        (fun _ => Started.forget) fun _ h => h
      refine ⟨fun _ => ⟨by simp [Node.fresh], fun _ => ⟨hid, hne, hspecial⟩, by simp [Node.fresh]⟩,
        fun c he => ?_, fun _ => by simp [Node.fresh]⟩
      cases he
      exact hc hnone
    by_cases hf : (r.tree.field? id).isSome = true
    · rw [if_pos hf]
      refine hput hr fun hnone => ?_
      rw [FormTree.field?, hnone] at hf
      cases hf
    · rw [if_neg hf]
      cases hc : around.config? r.columns id with
      | some config => exact hput (hr.ask id) fun _ => (by rw [columns_ask]; exact hc)
      | none =>
        cases inPalette with
        | false => exact hr.ask id
        | true =>
          have hc' : around.config? (r.ask around id).columns id = none := by
            rw [columns_ask]
            exact hc
          exact hput ((hr.ask id).synthesize hc') fun _ => around.config?_synthesized hc'

theorem keeps_addPaletteItem (name : String) {item : Item} (hi : item.Plain) :
    Keeps (Started around label fun x => x = paletteId name ∨ kept x)
      (addPaletteItem around name item) := by
  intro r hr
  rw [addPaletteItem]
  cases hk : item.kind with
  | field id =>
    obtain ⟨hspecial, rfl⟩ := Item.kind_eq_field_iff.1 hk
    exact ends_addField true hi.first hspecial (fun s hs => hi.parts s (List.mem_of_mem_drop hs)) _ hr
  | special token =>
    cases token with
    | lineBreak =>
      refine ends_lineBreak _ hr fun id hid => ?_
      cases hid
      exact hr.has (.inl rfl)
    | tab => exact hr
    | palette => exact hr
    | unknown token => exact hr

theorem ends_addPalette {item : Item} (hi : item.Plain) (hr : r.Started around label kept) :
    (addPalette around item).Ends r (Started around label kept) (Started around label kept) := by
  match item, hi with
  | [], _ => exact hr
  | [_], _ => exact hr
  | lead :: part :: rest, hi =>
    rw [Ends, addPalette_eq]
    dsimp only
    cases hl : around.palettes.get? ((part :: rest).getLastD "") with
    | none => exact hr
    | some showItem =>
      dsimp only
      by_cases ht : (r.tree.palette? ((part :: rest).getLastD "")).isSome = true
      · rw [if_pos ht]
        exact hr
      · rw [if_neg ht]
        have hname : Text.Plain ((part :: rest).getLastD "") := by
          rw [List.getLastD_cons]
          exact hi.parts _ (List.mem_cons_of_mem _ List.getLastD_mem_cons)
        have hslots : ∀ s ∈ (part :: rest).dropLast, Text.Plain s := fun s hs =>
          hi.parts s (List.mem_cons_of_mem _ ((List.dropLast_sublist _).subset hs))
        have hput := ends_put (by simp [Content.kind]) (by rintro _ ⟨⟩; rfl) hslots r.position hr
          fun _ => Node.read_palette hname (Option.isSome_of_eq_some hl)
        refine hput.bind fun _ r' hr' => ?_
        have hitems := Keeps.forM (l := ShowItem.parse showItem)
          (fun i hi => keeps_addPaletteItem _ (ShowItem.plain_of_mem_parse hi).1) r' hr'
        exact hitems.imp (fun _ => Started.forget) fun _ => Started.forget

/-- A tab is opened in any sound reading; if this fails, the reading is as before. -/
theorem ends_openTab {item : Item} (hi : item.Plain) (hr : r.Sound around label) :
    (openTab item).Ends r (Started around label fun _ => False) (· = r) := by
  have hslots : ∀ s ∈ item.drop 1, Text.Plain s := fun s hs => hi.parts s (List.mem_of_mem_drop hs)
  cases hu : r.tree.tab (toString r.tree.tabs.length) with
  | error e => exact .of_error (e := e) (by simp only [openTab_eq, hu]) rfl
  | ok u =>
    have hid := hr.linked.node?_numbered hr.numbered hu
    have hlast := Node.lasting_read around r.columns label
    have htabs := hr.linked.tabs_create_tab hid hu
    refine .of_ok (a := ()) (by simp only [openTab_eq, hu]; rfl) ?_
    refine ⟨⟨(hr.linked.create (by simp) hu).update _ (Node.keepsLinks_slots _), ?_, ?_⟩, ?_, ?_,
      False.elim⟩
    · rw [FormTree.tabs_update, htabs, List.length_append, List.length_singleton, List.range_succ,
        List.map_append, ← hr.numbered]
      rfl
    · exact (hr.holds.create hlast (fun _ => hlast.tab _) hu).update _
        fun n hn => ⟨fun hl => (hn.1 hl).withSlots hslots, hn.2⟩
    · rw [FormTree.tabs_update, htabs]
      simp
    · rintro _ ⟨⟩
      obtain ⟨n, hn, _⟩ := hr.linked.create_self (by simp) hu
      rw [FormTree.Linked.has_update]
      exact FormTree.has_iff.2 ⟨n, hn⟩

theorem ends_addItem {item : Item} (hi : item.Plain) (hr : r.Started around label fun _ => False) :
    (addItem around item).Ends r (Started around label fun _ => False)
      (Started around label fun _ => False) := by
  cases hk : item.kind with
  | field id =>
    obtain ⟨hspecial, rfl⟩ := Item.kind_eq_field_iff.1 hk
    rw [Ends, addItem_field around hk]
    exact ends_addField false hi.first hspecial (fun s hs => hi.parts s (List.mem_of_mem_drop hs)) _
      hr
  | special token =>
    cases token with
    | lineBreak =>
      rw [Ends, addItem_lineBreak around hk]
      exact ends_lineBreak _ hr fun _ => hr.target_position
    | tab =>
      rw [addItem_tab around hk]
      refine (ends_openTab hi hr.toSound).imp (fun _ h => h) fun r' he => ?_
      rw [he]
      exact hr
    | palette =>
      rw [addItem_palette around hk]
      exact ends_addPalette hi hr
    | unknown token =>
      rw [addItem, hk]
      exact hr

theorem ends_ensureTab (hr : r.Sound around label) (ht : r.tab = none) :
    ensureTab.Ends r (Started around label fun _ => False) fun _ => False := by
  refine .of_ok (ensureTab_eq r) ?_
  have hholds := hr.holds.ensureTab (Node.lasting_read _ _ _)
  have hopened {id} (h : r.tab = some id) : r.tree.ensureTab.1.has id = true := by
    rw [ht] at h
    cases h
  by_cases hn : r.tree.tabs = []
  · have htabs := hr.linked.tabs_ensureTab_of_nil hn
    exact ⟨⟨hr.linked.ensureTab, by rw [htabs]; rfl, hholds⟩,
      by rw [htabs]; exact List.cons_ne_nil _ _,
      hopened, False.elim⟩
  · rw [FormTree.ensureTab_of_ne_nil hn] at hholds hopened ⊢
    exact ⟨⟨hr.linked, hr.numbered, hholds⟩, hn, hopened, False.elim⟩

theorem ends_takeIn {items : List Item} (hi : ∀ i ∈ items, i.Plain)
    (hr : r.Started around label fun _ => False) :
    (takeIn around items).Ends r (Started around label fun _ => False) (Sound around label) := by
  have hk : Keeps (Started around label fun _ => False) (items.forM (addItem around)) :=
    Keeps.forM fun i hm _ hr => ends_addItem (hi i hm) hr
  refine ((hk r hr).imp (fun _ h => h) fun _ h => h.toSound).bind fun _ r' hr' => ?_
  refine .of_ok (ensureTab_eq r') ?_
  rw [FormTree.ensureTab_of_ne_nil hr'.tabs_ne_nil]
  exact hr'

/-- Reading a layout ends in a sound state, and a complete one has a tab. -/
theorem ends_fill {items : List Item} (hi : ∀ i ∈ items, i.Plain)
    (hl : r.tree.defaultTabLabel = label) (ht : r.tab = none) :
    (fill around items).Ends r (Started around label fun _ => False) (Sound around label) := by
  have hreset : { r with tree := r.tree.reset }.Sound around label :=
    ⟨FormTree.Linked.reset _, rfl, ⟨hl, (nomatch ·)⟩⟩
  rw [Ends, fill_eq]
  cases items with
  | nil =>
    exact ((ends_ensureTab hreset ht).imp (fun _ h => h) fun _ => False.elim).bind
      fun _ r' hr' => ends_takeIn hi hr'
  | cons item rest =>
    by_cases hk : item.kind = .special .tab
    · have hopen : (addItem around item).Ends { r with tree := r.tree.reset }
          (Started around label fun _ => False) (Sound around label) := by
        rw [addItem_tab around hk]
        exact (ends_openTab (hi item List.mem_cons_self) hreset).imp (fun _ h => h)
          fun _ he => he ▸ hreset
      rw [if_pos (by simpa [startsWithTab] using hk), takeIn_cons]
      exact hopen.bind fun _ r' hr' => ends_takeIn (fun i hm => hi i (List.mem_cons_of_mem _ hm)) hr'
    · rw [if_neg (by simpa [startsWithTab] using hk)]
      exact ((ends_ensureTab hreset ht).imp (fun _ h => h) fun _ => False.elim).bind
        fun _ r' hr' => ends_takeIn hi hr'

end Step

/-- What is read satisfies the invariants, whether the reading succeeds or fails. -/
theorem read_sound (layout : Layout) (tree : FormTree) (columns : Columns)
    (parent : Option (String → Option Fields)) : ∃ r : Reading,
      (layout.read tree columns parent).tree = r.tree ∧
      (layout.read tree columns parent).columns = r.columns ∧
      r.Sound ⟨layout.palettes, parent⟩ tree.defaultTabLabel ∧
      ((layout.read tree columns parent).failure = none → r.tree.tabs ≠ []) := by
  have h : (fill ⟨layout.palettes, parent⟩ (ShowItem.parse layout.showItem)).Ends
      ⟨tree, columns, none, []⟩ _ _ :=
    Step.ends_fill (fun i hi => (ShowItem.plain_of_mem_parse hi).1) rfl rfl
  rw [read]
  split
  · next r hr => exact ⟨r, rfl, rfl, (h.ok hr).toSound, fun _ => (h.ok hr).tabs_ne_nil⟩
  · next e r hr => exact ⟨r, rfl, rfl, h.error hr, (nomatch ·)⟩

end Layout

end FormLayout
