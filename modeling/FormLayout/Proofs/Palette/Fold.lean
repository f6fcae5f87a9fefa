import FormLayout.Palette.Fold
import FormLayout.Proofs.Palette.Reference
/-!
Folding palettes into shared ones. Each palette is stored under the name that the references to it
get, and so is everything that was stored before, as far as no renamed palette gets the same name.
-/

namespace FormLayout
set_option autoImplicit true

namespace Palette

theorem sameLayout_iff : sameLayout canonical a b = true ↔
    a = b ∨ canonical = true ∧ ShowItem.canonical a = ShowItem.canonical b := by
  rw [sameLayout, Bool.or_eq_true, Bool.and_eq_true, beq_iff_eq, beq_iff_eq]

theorem sameLayout_refl (canonical : Bool) (a : String) : sameLayout canonical a a = true :=
  sameLayout_iff.2 (.inl rfl)

theorem essence_eq_of_sameLayout (h : sameLayout canonical a b = true) :
    ShowItem.essence a = ShowItem.essence b := by
  rcases sameLayout_iff.1 h with rfl | ⟨_, h⟩
  · rfl
  · exact ShowItem.essence_eq_of_canonical_eq h

theorem holds_iff : holds canonical shared name layout = true ↔
    ∃ existing, shared.get? name = some existing ∧ sameLayout canonical existing layout = true := by
  rw [holds]
  cases shared.get? name with
  | none => simp
  | some existing => simp

/-- The shared palettes with a layout under a name, unless it is there already. -/
def stored (canonical : Bool) (shared : Palettes) (name layout : String) : Palettes :=
  if holds canonical shared name layout then shared else shared.put name layout

theorem holds_stored (canonical : Bool) (shared : Palettes) (name layout : String) :
    holds canonical (stored canonical shared name layout) name layout = true := by
  rw [stored]
  split
  · assumption
  · exact holds_iff.2 ⟨layout, Entries.get?_put_self _ _ _, sameLayout_refl _ _⟩

theorem get?_stored_of_ne {name other : String} (h : other ≠ name) :
    (stored canonical shared name layout).get? other = shared.get? other := by
  rw [stored]
  split
  · rfl
  · exact Entries.get?_put_of_ne _ _ h

theorem mem_names_stored (canonical : Bool) {shared : Palettes} (layout : String)
    (h : name = new ∨ name ∈ shared.names) : name ∈ (stored canonical shared new layout).names := by
  rw [stored]
  split
  · next hh =>
    rcases h with rfl | h
    · obtain ⟨existing, hget, _⟩ := holds_iff.1 hh
      exact Entries.mem_names_iff.2 ⟨existing, hget⟩
    · exact h
  · exact Entries.mem_names_put.2 h

theorem holds_stored_of_ne {name other : String} (h : other ≠ name) :
    holds canonical (stored canonical shared name layout) other l =
      holds canonical shared other l := by
  rw [holds, holds, get?_stored_of_ne h]

/-- What is stored under a name that is free, or has the layout, replaces nothing. -/
theorem holds_stored_of_holds {other : String}
    (hfree : holds canonical shared name layout = true ∨ shared.get? name = none)
    (h : holds canonical shared other l = true) :
    holds canonical (stored canonical shared name layout) other l = true := by
  rcases hfree with hheld | hnone
  · rwa [stored, if_pos hheld]
  · rwa [holds_stored_of_ne]
    rintro rfl
    obtain ⟨existing, hget, _⟩ := holds_iff.1 h
    cases hnone.symm.trans hget

theorem plain_renamedId (hk : Text.Plain key) (hn : Text.Plain name) :
    Text.Plain (renamedId key name) := by
  have hl : (renamedId key name).toList = key.toList ++ '-' :: name.toList := by
    rw [renamedId, String.toList_append, String.toList_append, List.append_assoc]
    rfl
  refine ⟨?_, ?_, ?_, ?_⟩ <;> rw [hl]
  · simp [hk.no_comma, hn.no_comma]
  · simp [hk.no_semicolon, hn.no_semicolon]
  · intro c hc
    cases he : key.toList with
    | nil =>
      rw [he] at hc
      cases hc
      rfl
    | cons d rest =>
      rw [he] at hc
      exact hk.trimmed.1 c (by rw [he]; exact hc)
  · intro c hc
    cases he : name.toList with
    | nil =>
      rw [he, List.getLast?_concat] at hc
      cases hc
      rfl
    | cons d rest =>
      rw [List.getLast?_append_of_ne_nil _ (List.cons_ne_nil _ _),
        List.getLast?_cons_of_ne_nil (by rw [he]; exact List.cons_ne_nil _ _)] at hc
      exact hn.trimmed.2 c hc

/-- The name that a reference has after some renamings. -/
def follow (renamed : List (String × String)) (name : String) : String :=
  renamed.foldl (fun x e => if x = e.1 then e.2 else x) name

theorem follow_append (renamed more : List (String × String)) (name : String) :
    follow (renamed ++ more) name = follow more (follow renamed name) := List.foldl_append

theorem follow_singleton (e : String × String) (name : String) :
    follow [e] name = if name = e.1 then e.2 else name := rfl

theorem follow_of_forall_ne (h : ∀ e ∈ renamed, e.1 ≠ name) : follow renamed name = name := by
  induction renamed with
  | nil => rfl
  | cons e rest ih =>
    rw [List.forall_mem_cons] at h
    rw [follow, List.foldl_cons, if_neg (Ne.symm h.1)]
    exact ih h.2

end Palette

open Palette

/-- The item with its reference renamed in turn. -/
def Item.redirect (renamed : List (String × String)) (item : Item) : Item :=
  renamed.foldl (fun i e => i.rename e.1 e.2) item

theorem Item.redirect_append (renamed more : List (String × String)) (item : Item) :
    item.redirect (renamed ++ more) = (item.redirect renamed).redirect more := List.foldl_append

theorem Item.reference?_redirect (renamed : List (String × String)) (item : Item) :
    (item.redirect renamed).reference? = item.reference?.map (follow renamed) := by
  induction renamed generalizing item with
  | nil => exact Option.map_id'.symm
  | cons e rest ih =>
    rw [redirect, List.foldl_cons]
    refine (ih _).trans ?_
    rw [reference?_rename, Option.map_map]
    rfl

theorem Item.redirect_eq (renamed : List (String × String)) (item : Item) :
    item.redirect renamed = match item.reference? with
      | some name => item.dropLast ++ [follow renamed name]
      | none => item := by
  induction renamed generalizing item with
  | nil =>
    cases h : item.reference? with
    | none => rfl
    | some name => exact (dropLast_append_reference? h).symm
  | cons e rest ih =>
    rw [redirect, List.foldl_cons]
    refine (ih _).trans ?_
    rw [reference?_rename, rename_eq]
    cases h : item.reference? with
    | none => rfl
    | some name =>
      dsimp only [Option.map_some]
      rw [List.dropLast_concat]
      rfl

theorem Item.kind_redirect (renamed : List (String × String)) (item : Item) :
    (item.redirect renamed).kind = item.kind := by
  rw [redirect_eq]
  cases h : item.reference? with
  | none => rfl
  | some name =>
    have hr := reference?_dropLast_append h (follow renamed name)
    exact (reference?_eq_some_iff.1 hr).1.trans (reference?_eq_some_iff.1 h).1.symm

theorem Item.redirect_of_none {item : Item} (h : item.reference? = none) :
    item.redirect renamed = item := by
  rw [redirect_eq, h]

theorem Item.Plain.rename {item : Item} (h : item.Plain) (name : String)
    (ho : Text.Plain other) : (item.rename name other).Plain := by
  rw [Item.rename]
  split
  · refine ⟨by simp, fun part hp => ?_⟩
    rcases List.mem_append.1 hp with hp | hp
    · exact h.parts part (List.dropLast_subset _ hp)
    · rw [List.mem_singleton.1 hp]
      exact ho
  · exact h

theorem Item.Plain.redirect {item : Item} (h : item.Plain)
    (hr : ∀ e ∈ renamed, Text.Plain e.2) : (item.redirect renamed).Plain := by
  induction renamed generalizing item with
  | nil => exact h
  | cons e rest ih =>
    rw [List.forall_mem_cons] at hr
    exact ih (h.rename e.1 hr.1) hr.2

theorem Item.redirect_ne {item : Item} (h : item ≠ [""]) (renamed : List (String × String)) :
    item.redirect renamed ≠ [""] := by
  intro he
  have hr := reference?_redirect renamed item
  rw [he] at hr
  have hnone : item.reference? = none := Option.map_eq_none_iff.1 (hr.symm.trans (by decide +kernel))
  rw [redirect_eq, hnone] at he
  exact h he

namespace Palette

variable {canonical : Bool} {typeKey : String} {start : Palettes} {showItem : String}

/-- What a fold does with one palette: the name that it takes is free or its layout is there, or the
palette is renamed. -/
theorem add_cases (canonical : Bool) (typeKey : String) (f : Fold) (name layout : String) :
    (holds canonical f.shared name layout = true ∨ f.shared.get? name = none) ∧
        f.add canonical typeKey name layout =
          { f with shared := stored canonical f.shared name layout } ∨
      holds canonical f.shared name layout = false ∧ f.add canonical typeKey name layout =
        ⟨stored canonical f.shared (renamedId typeKey name) layout,
          renameReference f.showItem name (renamedId typeKey name),
          f.renamed ++ [(name, renamedId typeKey name)]⟩ := by
  rw [Fold.add, stored]
  by_cases hh : holds canonical f.shared name layout = true
  · exact .inl ⟨.inl hh, by rw [if_pos hh, if_pos hh]⟩
  · by_cases hn : f.shared.has name = true
    · exact .inr ⟨by simpa using hh, by rw [if_neg hh, if_neg (by simpa using hn)]; rfl⟩
    · have hnone : f.shared.get? name = none := by simpa [Entries.has] using hn
      exact .inl ⟨.inr hnone, by rw [if_neg hh, if_pos (by simpa using hn), if_neg hh]⟩

/-- The palettes of one type, taken in one after the other. -/
def addAll (canonical : Bool) (typeKey : String) (f : Fold) (own : Palettes) : Fold :=
  own.foldl (fun f e => f.add canonical typeKey e.1 e.2) f

theorem addAll_concat (f : Fold) (own : Palettes) (e : String × String) :
    addAll canonical typeKey f (own ++ [e]) =
      (addAll canonical typeKey f own).add canonical typeKey e.1 e.2 := by
  rw [addAll, List.foldl_append]
  rfl

theorem mem_renamed (canonical : Bool) (typeKey : String) (start : Palettes) (showItem : String)
    (own : Palettes) : ∀ e ∈ (addAll canonical typeKey ⟨start, showItem, []⟩ own).renamed,
      e.1 ∈ own.names ∧ e.2 = renamedId typeKey e.1 := by
  intro e h
  induction own using List.reverseRecOn with
  | nil => cases h
  | append_singleton init last ih =>
    rw [Entries.mem_names_concat]
    rw [addAll_concat] at h
    rcases add_cases canonical typeKey (addAll canonical typeKey ⟨start, showItem, []⟩ init)
      last.1 last.2 with ⟨_, ha⟩ | ⟨_, ha⟩ <;> rw [ha] at h
    · exact ⟨.inl (ih h).1, (ih h).2⟩
    · rcases List.mem_append.1 h with h | h
      · exact ⟨.inl (ih h).1, (ih h).2⟩
      · rw [List.mem_singleton.1 h]
        exact ⟨.inr rfl, rfl⟩

/-- References to other palettes stay as they are. -/
theorem follow_addAll_of_not_mem (canonical : Bool) (typeKey : String) (start : Palettes)
    (showItem : String) {own : Palettes} (hn : name ∉ own.names) :
    follow (addAll canonical typeKey ⟨start, showItem, []⟩ own).renamed name = name :=
  follow_of_forall_ne fun e he hx =>
    hn (hx ▸ (mem_renamed canonical typeKey start showItem own e he).1)

/-- Folding palettes in takes no name away, and every new name is stored. -/
theorem mem_names_addAll (own : Palettes) {f : Fold} :
    (∀ name ∈ f.shared.names, name ∈ (addAll canonical typeKey f own).shared.names) ∧
      ((∀ e ∈ f.renamed, e.2 ∈ f.shared.names) →
        ∀ e ∈ (addAll canonical typeKey f own).renamed,
          e.2 ∈ (addAll canonical typeKey f own).shared.names) := by
  induction own generalizing f with
  | nil => exact ⟨fun _ hm => hm, fun h => h⟩
  | cons own rest ih =>
    obtain ⟨hnames, hrenamed⟩ := ih (f := f.add canonical typeKey own.1 own.2)
    rw [addAll, List.foldl_cons]
    rcases add_cases canonical typeKey f own.1 own.2 with ⟨_, ha⟩ | ⟨_, ha⟩ <;>
      rw [ha] at hnames hrenamed ⊢
    · refine ⟨fun name hm => hnames name (mem_names_stored _ _ (.inr hm)), fun h => ?_⟩
      exact hrenamed fun e he => mem_names_stored _ _ (.inr (h e he))
    · refine ⟨fun name hm => hnames name (mem_names_stored _ _ (.inr hm)), fun h => ?_⟩
      refine hrenamed fun e he => mem_names_stored _ _ ?_
      rcases List.mem_append.1 he with he | he
      · exact .inr (h e he)
      · exact .inl (by rw [List.mem_singleton.1 he])

/-- The references of a written show item are renamed as the palettes are. -/
theorem showItem_addAll {own : Palettes} {items : List Item} (hi : ∀ i ∈ items, i.Plain)
    (hk : Text.Plain typeKey) (hown : ∀ name ∈ own.names, Text.Plain name) :
    (addAll canonical typeKey ⟨start, ShowItem.text items, []⟩ own).showItem = ShowItem.text
      (items.map (Item.redirect
        (addAll canonical typeKey ⟨start, ShowItem.text items, []⟩ own).renamed)) := by
  induction own using List.reverseRecOn with
  | nil => exact congrArg ShowItem.text (List.map_id items).symm
  | append_singleton init last ih =>
    have hinit : ∀ name ∈ Entries.names init, Text.Plain name := fun name hn =>
      hown name (Entries.mem_names_concat.2 (.inl hn))
    have hlast : Text.Plain last.1 := hown _ (Entries.mem_names_concat.2 (.inr rfl))
    have hf := ih hinit
    have hrenamed := mem_renamed canonical typeKey start (ShowItem.text items) init
    rw [addAll_concat]
    generalize addAll canonical typeKey ⟨start, ShowItem.text items, []⟩ init = f at *
    rcases add_cases canonical typeKey f last.1 last.2 with ⟨_, ha⟩ | ⟨_, ha⟩ <;> rw [ha]
    · exact hf
    · have hitems : ∀ i ∈ items.map (Item.redirect f.renamed), i.Plain := by
        intro i hm
        obtain ⟨j, hj, rfl⟩ := List.mem_map.1 hm
        refine (hi j hj).redirect fun e he => ?_
        rw [(hrenamed e he).2]
        exact plain_renamedId hk (hinit _ (hrenamed e he).1)
      dsimp only
      rw [hf, renameReference_text hitems hlast, List.map_map]
      refine congrArg ShowItem.text (List.map_congr_left fun i _ => ?_)
      exact (Item.redirect_append f.renamed [(last.1, renamedId typeKey last.1)] i).symm

theorem parse_text_redirect {items : List Item} (hi : ∀ i ∈ items, i.Plain)
    (hne : ∀ i ∈ items, i ≠ [""]) (hr : ∀ e ∈ renamed, Text.Plain e.2) :
    ShowItem.parse (ShowItem.text (items.map (Item.redirect renamed))) =
      items.map (Item.redirect renamed) := by
  rw [ShowItem.parse_text]
  · apply List.filter_eq_self.2
    intro i hm
    obtain ⟨j, hj, rfl⟩ := List.mem_map.1 hm
    exact decide_eq_true (Item.redirect_ne (hne j hj) _)
  · intro i hm
    obtain ⟨j, hj, rfl⟩ := List.mem_map.1 hm
    exact (hi j hj).redirect hr

/-- The palettes that are renamed, each with its new name and its layout. -/
def replacing (renamed : List (String × String)) (own : Palettes) : Palettes :=
  renamed.filterMap fun e => (own.get? e.1).map (e.2, ·)

/-- The layout under a name after palettes got new names. The last one that got this name counts. -/
def latest (given : Palettes) (name layout : String) : String :=
  given.foldl (fun l e => if e.1 = name then e.2 else l) layout

theorem latest_append (given more : Palettes) (name layout : String) :
    latest (given ++ more) name layout = latest more name (latest given name layout) :=
  List.foldl_append

theorem latest_concat (given : Palettes) (new : String × String) (name layout : String) :
    latest (given ++ [new]) name layout = if new.1 = name then new.2 else latest given name layout :=
  latest_append given [new] name layout

theorem latest_of_forall {given : Palettes} (h : ∀ e ∈ given, e.1 = name → e.2 = layout) :
    latest given name layout = layout := by
  induction given with
  | nil => rfl
  | cons e rest ih =>
    rw [List.forall_mem_cons] at h
    rw [latest, List.foldl_cons]
    split
    · next he =>
      rw [h.1 he]
      exact ih h.2
    · exact ih h.2

theorem replacing_concat {own : Palettes} (last : String × String)
    (h : ∀ e ∈ renamed, e.1 ∈ own.names) :
    replacing renamed (own ++ [last]) = replacing renamed own := by
  refine List.filterMap_congr fun e he => ?_
  obtain ⟨layout, hget⟩ := Entries.mem_names_iff.1 (h e he)
  rw [Entries.get?_append, hget]
  rfl

/-- Palettes that are folded in. What was under a name is still there, and so is what the references
to each palette stand for, as far as no later palette got the name. -/
structure Keeps (canonical : Bool) (start own : Palettes) (f : Fold) : Prop where
  kept {name layout : String} :
    holds canonical start name layout = true ∨ name ∈ (replacing f.renamed own).names →
      holds canonical f.shared name (latest (replacing f.renamed own) name layout) = true
  own : ∀ e ∈ own, holds canonical f.shared (follow f.renamed e.1)
    (latest (replacing f.renamed own) (follow f.renamed e.1) e.2) = true

namespace Keeps

variable {init : Palettes} {f : Fold} {last : String × String}

/-- A palette keeps its name, which is free or has its layout. -/
theorem add_same (h : Keeps canonical start init f) (hself : follow f.renamed last.1 = last.1)
    (hreplacing : replacing f.renamed (init ++ [last]) = replacing f.renamed init)
    (hfree : holds canonical f.shared last.1 last.2 = true ∨ f.shared.get? last.1 = none) :
    Keeps canonical start (init ++ [last])
      { f with shared := Palette.stored canonical f.shared last.1 last.2 } := by
  constructor
  case kept =>
    intro name layout hs
    dsimp only at hs ⊢
    rw [hreplacing] at hs ⊢
    exact holds_stored_of_holds hfree (h.kept hs)
  case own =>
    intro e he
    dsimp only
    rw [hreplacing]
    rcases List.mem_append.1 he with he | he
    · exact holds_stored_of_holds hfree (h.own e he)
    · rw [List.mem_singleton.1 he, hself]
      by_cases hgiven : last.1 ∈ (replacing f.renamed init).names
      · exact holds_stored_of_holds hfree (h.kept (.inr hgiven))
      · rw [latest_of_forall]
        · exact holds_stored _ _ _ _
        · exact fun r hr hx => absurd (List.mem_map.2 ⟨r, hr, hx⟩) hgiven

/-- A palette gets a new name, and replaces one that has it already. -/
theorem add_renamed (h : Keeps canonical start init f) (hself : follow f.renamed last.1 = last.1)
    {new : String} (hreplacing : replacing (f.renamed ++ [(last.1, new)]) (init ++ [last]) =
      replacing f.renamed init ++ [(new, last.2)]) (showItem : String) :
    Keeps canonical start (init ++ [last])
      ⟨Palette.stored canonical f.shared new last.2, showItem, f.renamed ++ [(last.1, new)]⟩ := by
  have hstored {name layout : String} (hother : new ≠ name →
      holds canonical f.shared name (latest (replacing f.renamed init) name layout) = true) :
      holds canonical (Palette.stored canonical f.shared new last.2) name
        (latest (replacing f.renamed init ++ [(new, last.2)]) name layout) = true := by
    rw [latest_concat]
    split
    · next hx => exact hx ▸ holds_stored _ _ _ _
    · next hx => exact (holds_stored_of_ne (Ne.symm hx)).trans (hother hx)
  constructor
  case kept =>
    intro name layout hs
    dsimp only at hs ⊢
    rw [hreplacing] at hs ⊢
    apply hstored
    intro hx
    refine h.kept (hs.imp_right fun hm => ?_)
    rcases Entries.mem_names_concat.1 hm with hm | hm
    · exact hm
    · exact absurd hm.symm hx
  case own =>
    intro e he
    dsimp only
    rw [hreplacing]
    apply hstored
    rw [follow_append, follow_singleton]
    intro hx
    split at hx
    · exact absurd rfl hx
    · next hne =>
      rw [if_neg hne]
      rcases List.mem_append.1 he with he | he
      · exact h.own e he
      · rw [List.mem_singleton.1 he] at hne
        exact absurd hself hne

end Keeps

/-- Folding the palettes of a type in keeps them, and those that were there. -/
theorem keeps_addAll (canonical : Bool) (typeKey : String) (start : Palettes) (showItem : String)
    {own : Palettes} (hown : own.Distinct) :
    Keeps canonical start own (addAll canonical typeKey ⟨start, showItem, []⟩ own) := by
  induction own using List.reverseRecOn with
  | nil =>
    refine ⟨fun h => ?_, by simp⟩
    exact h.resolve_right (List.not_mem_nil)
  | append_singleton init last ih =>
    obtain ⟨hinit, hnew⟩ := Entries.distinct_concat hown
    have hself := follow_addAll_of_not_mem canonical typeKey start showItem hnew
    have hnames (e) (he) := (mem_renamed canonical typeKey start showItem init e he).1
    have hkeeps := ih hinit
    rw [addAll_concat]
    generalize addAll canonical typeKey ⟨start, showItem, []⟩ init = f at *
    have hreplacing := replacing_concat last hnames
    rcases add_cases canonical typeKey f last.1 last.2 with ⟨hfree, h⟩ | ⟨_, h⟩ <;> rw [h]
    · exact hkeeps.add_same hself hreplacing hfree
    · apply hkeeps.add_renamed hself
      have hget : Entries.get? (init ++ [last]) last.1 = some last.2 :=
        Entries.get?_of_mem hown (List.mem_append_right init (List.mem_singleton_self last))
      rw [← hreplacing, replacing, List.filterMap_append, List.filterMap_cons, hget]
      rfl

end Palette

end FormLayout
