import FormLayout.Proofs.Layout.Rearrange
import FormLayout.Proofs.Palette.Fold
import Mathlib.Logic.Function.Basic
/-!
Reading what a tree was written as after its palettes got other names, which keep them apart.
-/

namespace FormLayout
set_option autoImplicit true
open Palette

/-- The id of a node after palettes were renamed. -/
noncomputable def renamedNode (renamed : List (String × String)) : String → String :=
  Function.extend paletteId (fun name => paletteId (follow renamed name)) fun id => id

theorem renamedNode_paletteId (renamed : List (String × String)) (name : String) :
    renamedNode renamed (paletteId name) = paletteId (follow renamed name) :=
  paletteId_injective.extend_apply _ _ name

theorem renamedNode_of_ne {id : String} (h : ∀ e ∈ renamed, id ≠ paletteId e.1) :
    renamedNode renamed id = id := by
  by_cases hid : ∃ name, paletteId name = id
  · obtain ⟨name, rfl⟩ := hid
    rw [renamedNode_paletteId, follow_of_forall_ne fun e he hname => h e he (hname ▸ rfl)]
  · exact Function.extend_apply' _ _ _ hid

/-- A palette that a tree writes is one of its nodes. -/
theorem FormTree.exists_palette {t : FormTree} {name : String}
    (hm : name ∈ t.layout.palettes.names) : ∃ x n, t.node? x = some n ∧ n.palette? = some name := by
  obtain ⟨showItem, hs⟩ := Entries.mem_names_iff.1 hm
  obtain ⟨n, hn, hp⟩ := List.mem_filterMap.1 (Entries.mem_of_mem_ofList (Entries.mem_of_get? hs))
  obtain ⟨tab, _, hn⟩ := List.mem_flatMap.1 hn
  obtain ⟨x, hn⟩ := mem_childNodes hn
  obtain ⟨own, hown, he⟩ := Option.map_eq_some_iff.1 hp
  cases he
  exact ⟨x, n, hn, hown⟩

namespace Layout

variable {t : FormTree} {palettes : Palettes} {parent : Option (String → Option Fields)}
  {columns : Columns} {renamed : List (String × String)} {label : String}

/-- A tree that was read shows stored palettes only. -/
theorem Reading.Sound.has_palette {r : Reading} (h : r.Sound around label) {name : String}
    (hm : name ∈ r.tree.layout.palettes.names) : around.palettes.has name = true := by
  obtain ⟨x, n, hn, hp⟩ := FormTree.exists_palette hm
  exact (h.holds.nodes hn).2.2 name (Node.palette?_eq_some_iff.1 hp)

/-- A field of a tree is no node of a palette that the tree writes. -/
theorem ne_paletteId_of_field (hl : t.Linked loose) {id : String} (hf : t.field? id ≠ none)
    {name : String} (hm : name ∈ t.layout.palettes.names) : id ≠ paletteId name := by
  rintro rfl
  obtain ⟨x, n, hn, hp⟩ := FormTree.exists_palette hm
  rw [hl.palette_keyed hn hp] at hn
  have hk : n.kind ≠ .field := by
    rw [Node.kind, Node.palette?_eq_some_iff.1 hp]
    simp [Content.kind]
  rw [FormTree.field?, hn, Option.filter_some, if_neg (by simpa using hk)] at hf
  exact hf rfl

/-- What renamed palettes have to satisfy for the tree to be read again. -/
structure Redirects (palettes : Palettes) (canonical : Bool) (t : FormTree)
    (renamed : List (String × String)) : Prop where
  own : ∀ e ∈ renamed, e.1 ∈ t.layout.palettes.names
  plain : ∀ e ∈ renamed, Text.Plain e.2
  apart : ∀ a ∈ t.layout.palettes.names, ∀ b ∈ t.layout.palettes.names,
    follow renamed a = follow renamed b → a = b
  stored : ∀ e ∈ t.layout.palettes, holds canonical palettes (follow renamed e.1) e.2 = true

theorem Redirects.inside? (h : Redirects palettes canonical t renamed) (hl : t.Linked loose)
    (hp : t.Holds label Node.Plain) {item : Item} (hi : item ∈ t.items)
    (hr : item.reference? = some name) :
    Surroundings.inside? ⟨palettes, parent⟩ (follow renamed name) =
      some (t.inside (paletteId name)) := by
  have hget := hl.get?_layout_palettes hp hi hr
  obtain ⟨existing, hs, hsame⟩ := holds_iff.1 (h.stored _ (Entries.mem_of_get? hget))
  rw [Surroundings.inside?, hs, Option.map_some, essence_eq_of_sameLayout hsame, hp.essence_inside]

/-- The node of a field keeps its id. -/
theorem Redirects.renamedNode_field (h : Redirects palettes canonical t renamed)
    (hl : t.Linked loose) {id : String} (hf : t.field? id ≠ none) : renamedNode renamed id = id :=
  renamedNode_of_ne fun e he => ne_paletteId_of_field hl hf (h.own e he)

theorem Covers.ids_redirect (h : Covers ⟨t.layout.palettes, parent⟩ columns t)
    (hd : Redirects palettes canonical t renamed) (hl : t.Linked fun _ => False)
    (hp : t.Holds label Node.Plain) {item : Item} (hi : item ∈ t.items) :
    Surroundings.ids ⟨palettes, parent⟩ (item.redirect renamed) =
      (Surroundings.ids ⟨t.layout.palettes, parent⟩ item).map (renamedNode renamed) := by
  have hfields {l : List String} (hf : ∀ id ∈ l, t.field? id ≠ none) :
      l.map (renamedNode renamed) = l := by
    refine (List.map_congr_left fun id hm => ?_).trans (List.map_id l)
    exact hd.renamedNode_field hl (hf id hm)
  cases FormTree.writes_of_mem hi with
  | @tab _ n _ =>
    have hk := kind_tabItem n
    have hnone : (tabItem n).reference? = none := Item.reference?_of_kind (by rw [hk]; simp)
    rw [Item.redirect_of_none hnone, Surroundings.ids, Surroundings.ids, hnone, Item.fieldIds, hk]
    rfl
  | @field x n _ hn hc =>
    have hnone : (fieldItem n).reference? = none := by
      apply Item.reference?_of_kind
      rw [kind_fieldItem ((hp.nodes hn).field hc).2.2]
      simp
    rw [Item.redirect_of_none hnone, ids_fieldItem (hp.nodes hn) hc,
      ids_fieldItem (hp.nodes hn) hc, hfields]
    intro id hm
    rw [List.mem_singleton.1 hm, hl.keyed hn, field?_of_node hn (by rw [Node.kind, hc]; rfl)]
    exact Option.some_ne_none n
  | @palette x name n hn hc =>
    have hr := reference?_paletteItem n name
    have hname := hl.palette_keyed hn (Node.palette?_eq_some_iff.2 hc)
    have hr' : (Item.redirect renamed (paletteItem n name)).reference? =
        some (follow renamed name) := by
      rw [Item.reference?_redirect, hr, Option.map_some]
    rw [Surroundings.ids_of_reference hr' (hd.inside? hl hp hi hr),
      Surroundings.ids_of_reference hr (h.inside? hn hc), List.map_cons, renamedNode_paletteId,
      hname, hfields]
    intro id hm
    exact mem_fieldIds_inside hl hp hm

theorem Covers.regular_redirect (h : Covers ⟨t.layout.palettes, parent⟩ columns t)
    (hd : Redirects palettes canonical t renamed) (hl : t.Linked fun _ => False)
    (hp : t.Holds label Node.Plain) {item : Item} (hi : item ∈ t.items) :
    Item.Regular (Surroundings.inside? ⟨palettes, parent⟩)
      (fun id => (Surroundings.config? ⟨palettes, parent⟩ columns id).isSome)
      (item.redirect renamed) := by
  cases regular_items h hl hp item hi with
  | @tab slots htrim =>
    have hk := Item.kind_special SpecialToken.ofPart?_tab slots
    rw [Item.redirect_of_none (Item.reference?_of_kind (by rw [hk]; simp))]
    exact .tab htrim
  | @field id slots hspecial hne hknown htrim =>
    have hk := Item.kind_field hspecial slots
    rw [Item.redirect_of_none (Item.reference?_of_kind (by rw [hk]; simp))]
    exact .field hspecial hne hknown htrim
  | @palette slots name items hslots _ _ =>
    have hr := Item.reference?_concat name hslots
    have he : Item.redirect renamed (SpecialToken.palette.dashed :: (slots ++ [name])) =
        SpecialToken.palette.dashed :: (slots ++ [follow renamed name]) := by
      rw [Item.redirect_eq, hr, ← List.cons_append]
      dsimp only
      rw [List.dropLast_concat, List.cons_append]
    rw [he]
    exact .palette hslots (hd.inside? hl hp hi hr) (regularInside h hl hp)

theorem startsWithTab_redirect (items : List Item) :
    startsWithTab (items.map (Item.redirect renamed)) = startsWithTab items := by
  cases items with
  | nil => rfl
  | cons item rest => rw [List.map_cons, startsWithTab, startsWithTab, Item.kind_redirect]

theorem tabCount_redirect (items : List Item) :
    tabCount (items.map (Item.redirect renamed)) = tabCount items := by
  rw [tabCount, tabCount, List.countP_map]
  exact List.countP_congr fun item _ => by rw [Function.comp_apply, Item.kind_redirect]

theorem Covers.readable_redirect (h : Covers ⟨t.layout.palettes, parent⟩ columns t)
    (hd : Redirects palettes canonical t renamed) (hl : t.Linked fun _ => False)
    (hp : t.Holds label Node.Plain) (ht : t.tabs ≠ []) (hnum : Unnumbered t)
    (hid : ∀ id, t.field? id ≠ none → ∀ name ∈ t.layout.palettes.names,
      id ≠ paletteId (follow renamed name)) :
    Readable ⟨palettes, parent⟩ columns (t.items.map (Item.redirect renamed)) := by
  have hown := h.readable hl hp ht hnum
  have hids : (t.items.map (Item.redirect renamed)).flatMap (Surroundings.ids ⟨palettes, parent⟩) =
      (t.items.flatMap (Surroundings.ids ⟨t.layout.palettes, parent⟩)).map (renamedNode renamed) := by
    rw [List.flatMap_map, List.map_flatMap]
    exact List.flatMap_congr fun item hi => h.ids_redirect hd hl hp hi
  have hmem {x : String} (hx : x ∈ t.items.flatMap (Surroundings.ids ⟨t.layout.palettes, parent⟩)) :
      t.field? x ≠ none ∨ ∃ name ∈ t.layout.palettes.names, x = paletteId name :=
    h.mem_ids hl hp hx
  refine ⟨?_, ?_, ?_, ?_, ?_⟩
  · intro i hm
    obtain ⟨item, hi, rfl⟩ := List.mem_map.1 hm
    exact (hown.plain item hi).redirect hd.plain
  · intro i hm
    obtain ⟨item, hi, rfl⟩ := List.mem_map.1 hm
    exact h.regular_redirect hd hl hp hi
  · rw [startsWithTab_redirect]
    exact hown.starts
  · rw [hids]
    apply List.Nodup.map_on _ hown.nodup
    intro x hx y hy he
    rcases hmem hx with hx | ⟨a, ha, rfl⟩ <;> rcases hmem hy with hy | ⟨b, hb, rfl⟩
    · rwa [hd.renamedNode_field hl hx, hd.renamedNode_field hl hy] at he
    · rw [hd.renamedNode_field hl hx, renamedNode_paletteId] at he
      exact absurd he (hid x hx b hb)
    · rw [hd.renamedNode_field hl hy, renamedNode_paletteId] at he
      exact absurd he.symm (hid y hy a ha)
    · rw [renamedNode_paletteId, renamedNode_paletteId] at he
      rw [hd.apart a ha b hb (paletteId_injective he)]
  · rw [hids, tabCount_redirect]
    intro id hm k hk
    obtain ⟨x, hx, rfl⟩ := List.mem_map.1 hm
    rcases hmem hx with hf | ⟨name, _, rfl⟩
    · rw [hd.renamedNode_field hl hf]
      exact hown.numbers x hx k hk
    · rw [renamedNode_paletteId]
      exact (toString_ne_paletteId k _).symm

/-- A tree reads again as it was written when its palettes are stored under other names. -/
theorem Covers.read_redirect (h : Covers ⟨t.layout.palettes, parent⟩ columns t)
    (hd : Redirects palettes canonical t renamed) (hl : t.Linked fun _ => False)
    (hp : t.Holds label Node.Plain) (ht : t.tabs ≠ []) (hnum : Unnumbered t)
    (hid : ∀ id, t.field? id ≠ none → ∀ name ∈ t.layout.palettes.names,
      id ≠ paletteId (follow renamed name)) {tree : FormTree}
    (hlabel : Text.Plain tree.defaultTabLabel) {showItem : String}
    (hshow : ShowItem.parse showItem = t.items.map (Item.redirect renamed)) :
    ∃ r : Reading, Layout.read ⟨showItem, palettes⟩ tree columns parent =
        ⟨r.tree, columns, r.asked.reverse, none⟩ ∧
      r.tree.items = t.items.map (Item.redirect renamed) ∧
      ∀ e ∈ r.tree.layout.palettes, ∃ own ∈ t.layout.palettes,
        e = (follow renamed own.1, own.2) := by
  obtain ⟨r, hr, hs⟩ := fill_readable (h.readable_redirect hd hl hp ht hnum hid) tree
  refine ⟨r, ?_, hs.items_eq, fun e he => ?_⟩
  · rw [Layout.read, hshow, hr, ← hs.columns_eq]
  · have hplain : r.tree.Holds tree.defaultTabLabel Node.Plain :=
      ⟨hs.holds.label_eq, fun hn => (hs.holds.nodes hn).1 hlabel⟩
    obtain ⟨⟨item', hi', href'⟩, hlayout⟩ := hs.linked.mem_layout_palettes hplain e he
    rw [hs.items_eq] at hi'
    obtain ⟨item, hi, rfl⟩ := List.mem_map.1 hi'
    obtain ⟨name, href, hname⟩ :=
      Option.map_eq_some_iff.1 ((Item.reference?_redirect renamed item).symm.trans href')
    have hinside : Surroundings.inside? ⟨palettes, parent⟩ (follow renamed name) =
        some (t.inside (paletteId name)) := hd.inside? hl hp hi href
    have hshown : (e.1, t.inside (paletteId name)) ∈
        (t.items.map (Item.redirect renamed)).flatMap (Surroundings.shown ⟨palettes, parent⟩) := by
      refine List.mem_flatMap.2 ⟨_, List.mem_map_of_mem hi, ?_⟩
      rw [Surroundings.shown_of_reference href' (hname ▸ hinside)]
      exact List.mem_singleton_self _
    refine ⟨_, Entries.mem_of_get? (hl.get?_layout_palettes hp hi href), Prod.ext hname.symm ?_⟩
    rw [hlayout, hs.inside_eq hshown]

end Layout

end FormLayout
