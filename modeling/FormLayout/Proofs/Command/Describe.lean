import FormLayout.Command.Describe
import FormLayout.Proofs.Form.Alike
import FormLayout.Proofs.Layout.Sequence
import FormLayout.Proofs.Table.Reading
/-!
The description of a show item against the tree that the show item is read into.
-/

namespace FormLayout
set_option autoImplicit true

/-- What a description says of a node: its kind, the id of a field or the name of a palette, and the
label. -/
abbrev Outline := String × Option String × Option String

/-- Line breaks are left out. -/
def Shown.outline? : Shown → Option Outline
  | .tab slots => some ("div", none, slots.label?)
  | .palette name slots => some ("palette", some name, slots.label?)
  | .field id slots => some ("field", some id, slots.label?)
  | .lineBreak => none

def Node.outline? (n : Node) : Option Outline :=
  match n.content with
  | .tab => some ("div", none, n.label?)
  | .palette name => some ("palette", some name, n.label?)
  | .field _ => some ("field", some n.id, n.label?)
  | .lineBreak => none

theorem Node.outline?_shown (n : Node) : n.shown.outline? = n.outline? := by
  rw [Node.shown, Node.outline?, Node.label?]
  cases n.content <;> rfl

theorem filterMap_outline? (nodes : List Node) :
    nodes.filterMap Node.outline? = (nodes.map Node.shown).filterMap Shown.outline? := by
  rw [List.filterMap_map]
  exact List.filterMap_congr fun n _ => n.outline?_shown.symm

theorem Item.exists_fault?_iff {item : Item} :
    (∃ e, item.fault? = some e) ↔ ∃ token, item.kind = .special (.unknown token) := by
  rw [fault?]
  cases item.kind with
  | field id => simp
  | special token => cases token <;> simp

namespace Entry

def outline (e : Entry) : Outline := (e.kind, e.id, e.label)

/-- The id of a described field, unless it is empty. -/
def fieldId? (e : Entry) : Option String :=
  if e.kind = "field" then e.id.filter (· ≠ "") else none

def paletteId? (e : Entry) : Option String := if e.kind = "palette" then e.id else none

/-- Whether an entry is neither a line break nor a field or palette without an id. -/
def isNode (e : Entry) : Bool :=
  e.kind ≠ "linebreak" && !(e.kind = "field" && e.id = some "") &&
    !(e.kind = "palette" && e.id = none)

theorem labelOf_eq (item : Item) : labelOf item = Slots.label? (item.drop 1) := by
  match item with
  | [] => rfl
  | [_] => rfl
  | lead :: label :: rest =>
    by_cases h : label = "" <;> simp [labelOf, Slots.label?, h]

theorem ofItem_error_iff (item : Item) (e : Error) :
    ofItem item = .error e ↔ item.fault? = some e := by
  rw [ofItem, Item.fault?]
  cases item.kind with
  | field id => simp
  | special token => cases token <;> simp

/-- The entry of a palette item has the name that the item refers to, and the palette's label. -/
theorem ofItem_palette {item : Item} (hk : item.kind = .special .palette) :
    ofItem item = .ok ⟨"palette", item.reference?, item.reference?.bind fun _ =>
      Slots.label? (item.drop 1).dropLast, item⟩ := by
  rw [ofItem, hk]
  dsimp only
  match item, hk with
  | [], _ => rfl
  | [lead], hk =>
    have hnone : Item.reference? [lead] = none := if_pos hk
    rw [hnone]
    rfl
  | [lead, name], hk =>
    rw [Item.reference?_cons hk]
    rfl
  | lead :: label :: part :: rest, hk =>
    have hname : (lead :: label :: part :: rest).getLast? =
        some ((label :: part :: rest).getLastD "") := by
      simp [List.getLast?_cons]
    rw [Item.reference?_cons hk, labelOf_eq, hname, if_neg (by simp), if_neg (by simp)]
    rfl

/-- An entry names what its item names, and says what the node says that the item stands for. -/
structure Describes (e : Entry) (item : Item) : Prop where
  fieldId? : e.fieldId? = item.fieldId?
  paletteId? : e.paletteId? = item.reference?
  outline? : (if e.isNode then some e.outline else none) = item.shown?.bind Shown.outline?

theorem describes_of_ofItem {item : Item} (h : ofItem item = .ok e) : e.Describes item := by
  cases hk : item.kind with
  | field id =>
    rw [ofItem, hk] at h
    cases h
    have href : item.reference? = none := Item.reference?_of_kind (by simp [hk])
    constructor
    · simp [fieldId?, Item.fieldId?, hk, Option.filter_some]
    · simp [paletteId?, href]
    · by_cases hid : id = "" <;>
        simp [isNode, outline, Item.shown?, hk, hid, Shown.outline?, labelOf_eq]
  | special token =>
    cases token with
    | palette =>
      rw [ofItem_palette hk] at h
      cases h
      constructor
      · simp [fieldId?, Item.fieldId?, hk]
      · simp [paletteId?]
      · cases href : item.reference? <;>
          simp [isNode, outline, Item.shown?, hk, href, Shown.outline?]
    | tab | lineBreak =>
      rw [ofItem, hk] at h
      cases h
      have href : item.reference? = none := Item.reference?_of_kind (by simp [hk])
      constructor
      · simp [fieldId?, Item.fieldId?, hk, SpecialToken.text]
      · simp [paletteId?, href, SpecialToken.text]
      · simp [isNode, outline, Item.shown?, hk, Shown.outline?, labelOf_eq, SpecialToken.text]
    | unknown token =>
      rw [ofItem, hk] at h
      cases h

theorem describe_error_iff {s : String} :
    describe s = .error e ↔ (ShowItem.parse s).findSome? Item.fault? = some e :=
  mapM_error_iff ofItem_error_iff

theorem describe_ok {s : String} (h : describe s = .ok entries) :
    (∀ item ∈ ShowItem.parse s, item.fault? = none) ∧
      entries.filterMap fieldId? = (ShowItem.parse s).filterMap Item.fieldId? ∧
      entries.filterMap paletteId? = (ShowItem.parse s).filterMap Item.reference? ∧
      (entries.filter isNode).map outline =
        ((ShowItem.parse s).filterMap Item.shown?).filterMap Shown.outline? := by
  have hitems := List.Forall₂.flip ((mapM_ok_iff.1 h).imp fun _ _ => describes_of_ofItem)
  refine ⟨?_, filterMap_eq_of_forall₂ hitems fun e item h => h.fieldId?,
    filterMap_eq_of_forall₂ hitems fun e item h => h.paletteId?, ?_⟩
  · have hnone : (ShowItem.parse s).findSome? Item.fault? = none := by
      cases hf : (ShowItem.parse s).findSome? Item.fault? with
      | none => rfl
      | some e => cases h.symm.trans (describe_error_iff.2 hf)
    exact List.findSome?_eq_none_iff.1 hnone
  · rw [List.filterMap_filterMap, ← filterMap_eq_of_forall₂ hitems fun e item h => h.outline?,
      ← List.filterMap_eq_map, List.filterMap_filter]
    rfl

/-- A description fails just where there is an unknown special item. Otherwise it says of the items
what the tree that is read from the same text says of its nodes, in the order of the walk and after
the tab that the tree adds itself. For this nothing may be named twice, the fields must be known and
named like no other node, and the palettes must be known and empty. -/
theorem describe_read (s : String) :
    ((∃ e, describe s = .error e) ↔
      ∃ item ∈ ShowItem.parse s, ∃ token, item.kind = .special (.unknown token)) ∧
    ∀ entries, describe s = .ok entries →
      ∀ (palettes : Palettes) (columns : Columns) (parent : Option (String → Option Fields))
        (tree : FormTree),
      (entries.filterMap fieldId?).Nodup → (entries.filterMap paletteId?).Nodup →
      (∀ id ∈ entries.filterMap fieldId?,
        ':' ∉ id.toList ∧ (∀ n : Nat, id ≠ toString n) ∧ columns.has id = true) →
      (∀ name ∈ entries.filterMap paletteId?,
        ∃ content, palettes.get? name = some content ∧ ShowItem.parse content = []) →
      let filled := Layout.read ⟨s, palettes⟩ tree columns parent
      filled.failure = none ∧ filled.tree.walk.filterMap Node.outline? =
        (if Layout.startsWithTab (ShowItem.parse s) then []
          else [("div", none, Slots.label? [tree.defaultTabLabel])]) ++
        (entries.filter isNode).map outline := by
  constructor
  · simp only [describe_error_iff, ← Option.isSome_iff_exists, List.findSome?_isSome_iff]
    simp only [Option.isSome_iff_exists, Item.exists_fault?_iff]
  · intro entries h palettes columns parent tree hfields hpalettes hown hempty
    obtain ⟨hfault, hf, hp, houtline⟩ := describe_ok h
    rw [hf] at hfields hown
    rw [hp] at hpalettes hempty
    have hs : Layout.Standalone palettes columns (ShowItem.parse s) := by
      constructor
      case faultless => exact hfault
      case fieldsOnce => exact hfields
      case palettesOnce => exact hpalettes
      case own => exact fun id hid => ⟨(hown id hid).1, (hown id hid).2.1⟩
      case stored => exact fun id hid => (hown id hid).2.2
      case empty =>
        intro name hname
        obtain ⟨content, hget, hnil⟩ := hempty name hname
        rw [Entries.has, Layout.itemsOf, hget]
        exact ⟨rfl, hnil⟩
    obtain ⟨hread, hwalk⟩ := Layout.read_standalone ⟨s, palettes⟩ tree columns parent hs
    refine ⟨hread, ?_⟩
    rw [houtline, filterMap_outline?, hwalk, List.filterMap_append, Layout.tabInFront]
    split <;> rfl

/-- A palette has a label only between the token and its name; the fields and palettes without an id
are described, but not read. -/
theorem describe_read_mixed :
    let s := ";lost,a;A,--palette--;P;x;p,--linebreak--,--div--;;Main,--palette--;q,b;,--palette--"
    let entries : List Entry := [⟨"field", some "", some "lost", ["", "lost"]⟩,
      ⟨"field", some "a", some "A", ["a", "A"]⟩,
      ⟨"palette", some "p", some "P", ["--palette--", "P", "x", "p"]⟩,
      ⟨"linebreak", none, none, ["--linebreak--"]⟩, ⟨"div", none, none, ["--div--", "", "Main"]⟩,
      ⟨"palette", some "q", none, ["--palette--", "q"]⟩, ⟨"field", some "b", none, ["b", ""]⟩,
      ⟨"palette", none, none, ["--palette--"]⟩]
    let filled := Layout.read ⟨s, [("p", ""), ("q", " , ")]⟩ (.empty "general")
      [("a", []), ("b", [])] none
    describe s = .ok entries ∧ filled.failure = none ∧
      filled.tree.walk.filterMap Node.outline? = [("div", none, some "general"),
        ("field", some "a", some "A"), ("palette", some "p", some "P"), ("div", none, none),
        ("palette", some "q", none), ("field", some "b", none)] := by
  intro s entries filled
  have hs : describe s = .ok entries := by decide +kernel
  have hletter {id : String} {c : Char} (hc : c ∈ id.toList) (hd : c.isDigit = false) (n : Nat) :
      id ≠ toString n := by
    rintro rfl
    cases hd.symm.trans (isDigit_of_mem_toString hc)
  have hfields : entries.filterMap fieldId? = ["a", "b"] := by decide +kernel
  have hpalettes : entries.filterMap paletteId? = ["p", "q"] := by decide +kernel
  obtain ⟨hread, hwalk⟩ := (describe_read s).2 entries hs [("p", ""), ("q", " , ")]
    [("a", []), ("b", [])] none (.empty "general") (by decide +kernel) (by decide +kernel)
    (by
      rw [hfields]
      intro id hid
      rcases List.mem_pair.1 hid with rfl | rfl
      · exact ⟨by decide, hletter (c := 'a') (by decide) rfl, rfl⟩
      · exact ⟨by decide, hletter (c := 'b') (by decide) rfl, rfl⟩)
    (by
      rw [hpalettes]
      intro name hname
      rcases List.mem_pair.1 hname with rfl | rfl
      · exact ⟨_, rfl, by decide +kernel⟩
      · exact ⟨_, rfl, by decide +kernel⟩)
  refine ⟨hs, hread, hwalk.trans ?_⟩
  decide +kernel

end Entry

end FormLayout
