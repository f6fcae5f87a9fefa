import FormLayout.Settings.Loading
import Mathlib.Logic.Relation
import Mathlib.Tactic.Choose
/-!
What the extension of settings files comes to. Loading follows the files that extend one another and
succeeds if there is no fault and no cycle among them. The settings are then those of the first file
that has them, where a file comes before the files it extends.
-/

namespace FormLayout
set_option autoImplicit true
open Relation

/-- What a file may set for the files that extend it. -/
inductive Setting where
  | defaultTabLabel
  | baseTypeKey
  | canonicalPalettes
  | format
  | pretty

def Setting.Value : Setting → Type
  | .defaultTabLabel | .baseTypeKey => String
  | .canonicalPalettes | .pretty => Bool
  | .format => OutputFormat

namespace Settings

def get? (s : Settings) : (k : Setting) → Option k.Value
  | .defaultTabLabel => s.compiler.bind CompilerSettings.defaultTabLabel
  | .baseTypeKey => s.compiler.bind CompilerSettings.baseTypeKey
  | .canonicalPalettes => s.compiler.bind CompilerSettings.canonicalPalettes
  | .format => s.output.bind OutputSettings.format
  | .pretty => s.output.bind OutputSettings.pretty

theorem bind_section? {α β : Type} {join : α → α → α} {get : α → Option β}
    (h : ∀ a b, get (join a b) = (get a <|> get b)) (x y : Option α) :
    (section? join x y).bind get = (x.bind get).or (y.bind get) := by
  cases x with
  | none => rw [section?, Option.bind_none, Option.none_or]
  | some a =>
    cases y with
    | none => rw [section?, Option.bind_none, Option.or_none]
    | some b => exact (h a b).trans Option.or_eq_orElse.symm

/-- A setting that is there wins. -/
theorem get?_extend (s other : Settings) (k : Setting) :
    (s.extend other).get? k = (s.get? k).or (other.get? k) := by
  cases k with
  | defaultTabLabel => exact bind_section? (fun _ _ => rfl) s.compiler other.compiler
  | baseTypeKey => exact bind_section? (fun _ _ => rfl) s.compiler other.compiler
  | canonicalPalettes => exact bind_section? (fun _ _ => rfl) s.compiler other.compiler
  | format => exact bind_section? (fun _ _ => rfl) s.output other.output
  | pretty => exact bind_section? (fun _ _ => rfl) s.output other.output

theorem findSome?_flatMap {α β γ : Type} (f : β → Option γ) (g : α → List β) (l : List α) :
    (l.flatMap g).findSome? f = l.findSome? fun a => (g a).findSome? f := by
  induction l with
  | nil => rfl
  | cons a l ih =>
    rw [List.flatMap_cons, List.findSome?_append, List.findSome?_cons, ih]
    cases (g a).findSome? f <;> rfl

theorem findSome?_congr {α β : Type} {f g : α → Option β} {l : List α}
    (h : ∀ a ∈ l, f a = g a) : l.findSome? f = l.findSome? g := by
  induction l with
  | nil => rfl
  | cons a l ih =>
    rw [List.forall_mem_cons] at h
    rw [List.findSome?_cons, List.findSome?_cons, h.1, ih h.2]

theorem get?_foldl_extend (f : String → Settings) (l : List String) (s : Settings) (k : Setting) :
    (l.foldl (fun s p => s.extend (f p)) s).get? k =
      (s.get? k).or (l.findSome? fun p => (f p).get? k) := by
  induction l generalizing s with
  | nil => rw [List.foldl_nil, List.findSome?_nil, Option.or_none]
  | cons p l ih =>
    rw [List.foldl_cons, ih, get?_extend, List.findSome?_cons, Option.or_assoc]
    cases (f p).get? k <;> rfl

/-- The schema, the root mark and the list of extended files. -/
def own (s : Settings) : Option String × Option Bool × Option (List String) :=
  (s.schema, s.root, s.extended)

theorem own_foldl_extend (f : String → Settings) (l : List String) (s : Settings) :
    (l.foldl (fun s p => s.extend (f p)) s).own = s.own := by
  induction l generalizing s with
  | nil => rfl
  | cons p l ih => exact ih (s.extend (f p))

namespace Source

variable {src : Source}

/-- The files that a file extends, as it names them. -/
def extended (s : Settings) : List String := s.extended.getD []

/-- One call of the loader makes another one. -/
def Calls (src : Source) (inner outer : List String × String) : Prop :=
  ∃ file s, src.canonical outer.2 = .ok file ∧ file ∉ outer.1 ∧ src.read file = .ok s ∧
    ∃ parent ∈ extended s, inner = (outer.1 ++ [file], target file parent)

/-- One file extends another one. -/
def Extends (src : Source) (file other : String) : Prop :=
  ∃ s, src.read file = .ok s ∧ ∃ parent ∈ extended s,
    src.canonical (target file parent) = .ok other

/-- A file can be read and the files it extends exist. -/
def Whole (src : Source) (file : String) : Prop :=
  ∃ s, src.read file = .ok s ∧ ∀ parent ∈ extended s,
    ∃ other, src.canonical (target file parent) = .ok other

/-- A file, and after it, in their order, the files it extends, each with those that it extends. -/
inductive DepthFirst (src : Source) : String → List String → Prop where
  | node {other : String → String} {below : String → List String} : src.read file = .ok s →
      (∀ parent ∈ extended s, src.canonical (target file parent) = .ok (other parent)) →
      (∀ parent ∈ extended s, DepthFirst src (other parent) (below parent)) →
      DepthFirst src file (file :: (extended s).flatMap below)

def setting? (src : Source) (k : Setting) (file : String) : Option k.Value :=
  (src.read file).toOption.bind fun s => s.get? k

/-- No call of the loader leads to calls without end. -/
theorem wellFounded_calls (src : Source) : WellFounded src.Calls := by
  apply Subrelation.wf _ (measure fun call => src.left call.1).wf
  rintro inner outer ⟨file, s, hfile, hc, _, parent, _, rfl⟩
  exact left_lt hfile hc

theorem DepthFirst.unique (ha : src.DepthFirst file a) (hb : src.DepthFirst file b) : a = b := by
  induction ha generalizing b with
  | node hread hother _ ih =>
    cases hb with
    | node hread' hother' hbelow' =>
      cases hread.symm.trans hread'
      apply congrArg (List.cons _)
      apply congrArg List.flatten
      apply List.map_congr_left
      intro parent hp
      have he := Except.ok.inj ((hother parent hp).symm.trans (hother' parent hp))
      exact ih parent hp (he ▸ hbelow' parent hp)

/-- The settings that were loaded, if any were. -/
def loaded (x : Except Error Settings) : Settings := x.toOption.getD .empty

theorem foldlM_extend_ok_iff {g : String → Except Error Settings} {l : List String}
    {s r : Settings} :
    l.foldlM (fun s p => (g p).map s.extend) s = .ok r ↔
      (∀ p ∈ l, ∃ t, g p = .ok t) ∧ r = l.foldl (fun s p => s.extend (loaded (g p))) s := by
  induction l generalizing s with
  | nil =>
    rw [List.foldlM_nil, List.foldl_nil, and_iff_right (List.forall_mem_nil _)]
    exact ⟨fun h => (Except.ok.inj h).symm, fun h => congrArg _ h.symm⟩
  | cons p l ih =>
    rw [List.foldlM_cons, List.forall_mem_cons, List.foldl_cons]
    cases hp : g p with
    | error e =>
      constructor
      · intro h
        cases h
      · rintro ⟨⟨⟨t, ht⟩, _⟩, _⟩
        cases ht
    | ok t =>
      have ht : ∃ t', Except.ok (ε := Error) t = .ok t' := ⟨t, rfl⟩
      rw [and_iff_right ht]
      exact ih

theorem loadChain_ok_iff : src.loadChain chain path = .ok r ↔
    ∃ file s, src.canonical path = .ok file ∧ file ∉ chain ∧ src.read file = .ok s ∧
      (∀ parent ∈ extended s, ∃ t, src.loadChain (chain ++ [file]) (target file parent) = .ok t) ∧
      r = (extended s).foldl (fun s parent =>
        s.extend (loaded (src.loadChain (chain ++ [file]) (target file parent)))) s := by
  rw [loadChain]
  constructor
  · intro h
    split at h
    · cases h
    · next file hfile =>
      split at h
      · cases h
      · next hc =>
        split at h
        · cases h
        · next s hread => exact ⟨file, s, hfile, hc, hread, foldlM_extend_ok_iff.1 h⟩
  · rintro ⟨file, s, hfile, hc, hread, h⟩
    split
    · next hfault => cases hfile.symm.trans hfault
    · next other hother =>
      cases hfile.symm.trans hother
      rw [dif_neg hc, hread]
      exact foldlM_extend_ok_iff.2 h

/-- A statement about all calls of the loader may use it for the calls that a call makes. -/
@[elab_as_elim]
theorem chain_induction {motive : List String → String → Prop} (src : Source)
    (step : ∀ chain path, (∀ file parent, src.canonical path = .ok file → file ∉ chain →
      motive (chain ++ [file]) (target file parent)) → motive chain path)
    (chain : List String) (path : String) : motive chain path := by
  induction hn : src.left chain using Nat.strongRecOn generalizing chain path with
  | ind n ih =>
    apply step
    intro file parent hfile hc
    exact ih _ (hn ▸ left_lt hfile hc) _ _ rfl

theorem reached_cases (hread : src.read file = .ok s) (h : ReflTransGen src.Extends file f) :
    f = file ∨ ∃ parent ∈ extended s, ∃ other, src.canonical (target file parent) = .ok other ∧
      ReflTransGen src.Extends other f := by
  rcases ReflTransGen.cases_head h with rfl | ⟨other, ⟨t, ht, parent, hp, hother⟩, h⟩
  · exact .inl rfl
  · cases hread.symm.trans ht
    exact .inr ⟨parent, hp, other, hother, h⟩

/-- Loading succeeds where no file that is reached has a fault, is on the chain or extends itself. -/
theorem exists_loadChain_iff (src : Source) (chain : List String) (path : String) :
    (∃ s, src.loadChain chain path = .ok s) ↔ ∃ file, src.canonical path = .ok file ∧
      ∀ f, ReflTransGen src.Extends file f →
        src.Whole f ∧ f ∉ chain ∧ ¬TransGen src.Extends f f := by
  induction chain, path using chain_induction src with
  | step chain path ih =>
    constructor
    · rintro ⟨r, h⟩
      obtain ⟨file, s, hfile, hc, hread, hall, _⟩ := loadChain_ok_iff.1 h
      have hbelow {parent other f} (hp : parent ∈ extended s)
          (hother : src.canonical (target file parent) = .ok other)
          (hf : ReflTransGen src.Extends other f) :
          src.Whole f ∧ f ∉ chain ++ [file] ∧ ¬TransGen src.Extends f f := by
        obtain ⟨_, hother', h⟩ := (ih file parent hfile hc).1 (hall parent hp)
        cases hother.symm.trans hother'
        exact h f hf
      apply Exists.intro file
      apply And.intro hfile
      intro f hf
      rcases reached_cases hread hf with rfl | ⟨parent, hp, other, hother, hf⟩
      · have hwhole : src.Whole f := by
          apply Exists.intro s
          apply And.intro hread
          intro parent hp
          obtain ⟨other, hother, _⟩ := (ih f parent hfile hc).1 (hall parent hp)
          exact ⟨other, hother⟩
        have hloop : ¬TransGen src.Extends f f := by
          -- On its way back to the file a cycle passes a file below it, and the file is on the chain.
          intro hloop
          obtain ⟨other, ⟨t, ht, parent, hp, hother⟩, hf⟩ := TransGen.head'_iff.1 hloop
          cases hread.symm.trans ht
          exact (hbelow hp hother hf).2.1 (by simp)
        exact ⟨hwhole, hc, hloop⟩
      · obtain ⟨hwhole, hnot, hloop⟩ := hbelow hp hother hf
        exact ⟨hwhole, fun hm => hnot (List.mem_append_left _ hm), hloop⟩
    · rintro ⟨file, hfile, h⟩
      obtain ⟨⟨s, hread, hothers⟩, hc, _⟩ := h file .refl
      have hall : ∀ parent ∈ extended s,
          ∃ t, src.loadChain (chain ++ [file]) (target file parent) = .ok t := by
        intro parent hp
        obtain ⟨other, hother⟩ := hothers parent hp
        have hstep : src.Extends file other := ⟨s, hread, parent, hp, hother⟩
        apply (ih file parent hfile hc).2
        apply Exists.intro other
        apply And.intro hother
        intro f hf
        obtain ⟨hwhole, hnot, hloop⟩ := h f (hf.head hstep)
        refine ⟨hwhole, fun hm => ?_, hloop⟩
        rcases List.mem_append.1 hm with hm | hm
        · exact hnot hm
        · cases List.mem_singleton.1 hm
          exact hloop (TransGen.head' hstep hf)
      exact ⟨_, loadChain_ok_iff.2 ⟨file, s, hfile, hc, hread, hall, rfl⟩⟩

/-- What is loaded are the settings of the first files that have them, depth first. -/
theorem get?_loadChain (h : src.loadChain chain path = .ok r) : ∃ file s order,
    src.canonical path = .ok file ∧ src.read file = .ok s ∧ r.own = s.own ∧
      src.DepthFirst file order ∧ ∀ k, r.get? k = order.findSome? (src.setting? k) := by
  induction chain, path using chain_induction src generalizing r with
  | step chain path ih =>
    obtain ⟨file, s, hfile, hc, hread, hall, rfl⟩ := loadChain_ok_iff.1 h
    have hbelow : ∀ parent ∈ extended s, ∃ other order,
        src.canonical (target file parent) = .ok other ∧ src.DepthFirst other order ∧
          ∀ k, (loaded (src.loadChain (chain ++ [file]) (target file parent))).get? k =
            order.findSome? (src.setting? k) := by
      intro parent hp
      obtain ⟨t, ht⟩ := hall parent hp
      obtain ⟨other, _, order, hother, _, _, horder, hget⟩ := ih file parent hfile hc ht
      rw [ht]
      exact ⟨other, order, hother, horder, hget⟩
    choose! other below hother horder hget using hbelow
    refine ⟨file, s, _, hfile, hread, own_foldl_extend _ _ s, .node hread hother horder, fun k => ?_⟩
    have hself : src.setting? k file = s.get? k := by
      rw [setting?, hread]
      rfl
    rw [get?_foldl_extend, List.findSome?_cons, hself, findSome?_flatMap,
      findSome?_congr fun parent hp => hget parent hp k]
    cases s.get? k <;> rfl

/-- Loading ends. It succeeds if all files that are reached can be read and none extends itself on
some way, however often it is extended by others. Then each setting is that of the first file, depth
first, that has it, and the rest is that of the file itself. -/
theorem load_spec (src : Source) (start : String) :
    WellFounded src.Calls ∧
      ((∃ s, src.load start = .ok s) ↔ ∃ file, src.canonical start = .ok file ∧
        ∀ f, ReflTransGen src.Extends file f → src.Whole f ∧ ¬TransGen src.Extends f f) ∧
      ∀ r, src.load start = .ok r → ∃ file s, src.canonical start = .ok file ∧
        src.read file = .ok s ∧ r.own = s.own ∧ (∃ order, src.DepthFirst file order) ∧
        ∀ order, src.DepthFirst file order → ∀ k, r.get? k = order.findSome? (src.setting? k) := by
  refine ⟨src.wellFounded_calls, ?_, fun r h => ?_⟩
  · rw [load, exists_loadChain_iff]
    simp
  · obtain ⟨file, s, order, hfile, hread, hown, horder, hget⟩ := get?_loadChain h
    refine ⟨file, s, hfile, hread, hown, ⟨order, horder⟩, fun other hother => ?_⟩
    rw [hother.unique horder]
    exact hget

end Source

end Settings

end FormLayout
