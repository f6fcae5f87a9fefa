import FormLayout.Document.Yaml.Token
/-!
YAML documents as trees of nodes, and their grammar over tokens. A node may have an anchor, and
stands for itself wherever this anchor is referred to, even inside of itself.
-/

namespace FormLayout.Yaml

inductive Node where
  | scalar (s : Scalar)
  | sequence (tag : Option String) (items : List Node)
  | mapping (tag : Option String) (entries : List (Node × Node))
  | anchored (id : Nat) (node : Node)
  | reference (id : Nat)
  deriving Inhabited, Repr

namespace Node

def empty : Node := .scalar .empty

/-- The anchor and the tag in front of a node. -/
structure Properties where
  anchor : Option String
  tag : Option Tag
  deriving DecidableEq

namespace Properties

def ofTokens : List Token → Properties × List Token
  | .anchor a :: .tag t :: rest => (⟨some a, some t⟩, rest)
  | .tag t :: .anchor a :: rest => (⟨some a, some t⟩, rest)
  | .anchor a :: rest => (⟨some a, none⟩, rest)
  | .tag t :: rest => (⟨none, some t⟩, rest)
  | rest => (⟨none, none⟩, rest)

/-- The names of the anchors so far with their numbers. A name that comes again gets a new number,
the one that the next new name gets too. -/
def register (names : Entries Nat) (p : Properties) : Entries Nat :=
  match p.anchor with
  | some name => Entries.put names name names.length
  | none => names

def wrap (names : Entries Nat) (p : Properties) (node : Node) : Node :=
  match p.anchor with
  | some _ => .anchored names.length node
  | none => node

end Properties

/-- The handles that every document knows. -/
def commonHandles : Entries String := [("!", "!"), ("!!", commonTag "")]

/-- The text of a tag; none when its handle is unknown. -/
def tagText? (handles : Entries String) (t : Tag) : Option String :=
  if t.handle.isEmpty then some t.suffix
  else (Entries.get? (handles ++ commonHandles) t.handle).map fun start => start ++ t.suffix

/-- A node that is read, the anchors up to its end, and the tokens behind it. -/
abbrev Step (α : Type) := α × Entries Nat × List Token

mutual

/-- The node at the front of some tokens. In blocks a list may have the indentation of its key. -/
def ofTokens? (handles : Entries String) :
    Nat → (inBlock belowKey : Bool) → Entries Nat → List Token → Option (Step Node)
  | 0, _, _, _, _ => none
  | n + 1, inBlock, belowKey, names, tokens =>
    match tokens with
    | .reference name :: rest =>
      (Entries.get? names name).map fun id => (.reference id, names, rest)
    | _ => do
      let (p, tokens) := Properties.ofTokens tokens
      let tag ← match p.tag with
        | some t => (tagText? handles t).map some
        | none => some none
      let inner := p.register names
      let none? : Option (Step Node) :=
        if p.anchor.isSome || p.tag.isSome then some (.scalar ⟨tag, .plain, ""⟩, inner, tokens)
        else none
      let (node, later, rest) ← match tokens with
        | .scalar style text :: rest =>
          some (.scalar ⟨tag.filter (· ≠ "!"), style, text⟩, inner, rest)
        | .flowSequence :: rest =>
          (flowItems handles n true [] inner rest).map fun x => (.sequence tag x.1, x.2)
        | .flowMapping :: rest =>
          (flowEntries handles n true [] inner rest).map fun x => (.mapping tag x.1, x.2)
        | .blockEntry :: _ =>
          if belowKey then
            (inlineItems handles n [] inner tokens).map fun x => (.sequence tag x.1, x.2)
          else none?
        | .blockSequence :: rest =>
          if inBlock then
            (blockItems handles n [] inner rest).map fun x => (.sequence tag x.1, x.2)
          else none?
        | .blockMapping :: rest =>
          if inBlock then
            (blockEntries handles n [] inner rest).map fun x => (.mapping tag x.1, x.2)
          else none?
        | _ => none?
      return (p.wrap names node, later, rest)

/-- The items of a list with an indentation of its own. -/
def blockItems (handles : Entries String) :
    Nat → (rev : List Node) → Entries Nat → List Token → Option (Step (List Node))
  | 0, _, _, _ => none
  | n + 1, rev, names, tokens =>
    match tokens with
    | .blockEntry :: rest => do
      let (item, names, rest) ← match rest with
        | .blockEntry :: _ | .blockEnd :: _ => some (empty, names, rest)
        | _ => ofTokens? handles n true false names rest
      blockItems handles n (item :: rev) names rest
    | .blockEnd :: rest => some (rev.reverse, names, rest)
    | _ => none

/-- The items of a list with the indentation of its key. -/
def inlineItems (handles : Entries String) :
    Nat → (rev : List Node) → Entries Nat → List Token → Option (Step (List Node))
  | 0, _, _, _ => none
  | n + 1, rev, names, tokens =>
    match tokens with
    | .blockEntry :: rest => do
      let (item, names, rest) ← match rest with
        | .blockEntry :: _ | .key :: _ | .value :: _ | .blockEnd :: _ => some (empty, names, rest)
        | _ => ofTokens? handles n true false names rest
      inlineItems handles n (item :: rev) names rest
    | _ => some (rev.reverse, names, tokens)

/-- The entries of a mapping without brackets. -/
def blockEntries (handles : Entries String) :
    Nat → (rev : List (Node × Node)) → Entries Nat → List Token → Option (Step (List (Node × Node)))
  | 0, _, _, _ => none
  | n + 1, rev, names, tokens =>
    match tokens with
    | .key :: rest => do
      let (key, names, rest) ← blockNode handles n names rest
      let (value, names, rest) ← match rest with
        | .value :: rest => blockNode handles n names rest
        | _ => some (empty, names, rest)
      blockEntries handles n ((key, value) :: rev) names rest
    | .blockEnd :: rest => some (rev.reverse, names, rest)
    | _ => none

/-- A key or a value of a mapping without brackets, which may be empty. -/
def blockNode (handles : Entries String) : Nat → Entries Nat → List Token → Option (Step Node)
  | 0, _, _ => none
  | n + 1, names, tokens =>
    match tokens with
    | .key :: _ | .value :: _ | .blockEnd :: _ => some (empty, names, tokens)
    | _ => ofTokens? handles n true true names tokens

/-- The items of a list in brackets. An item with a mark of a key is a mapping of one entry; if its
key is empty, the token behind the mark is passed over. -/
def flowItems (handles : Entries String) :
    Nat → (isFirst : Bool) → (rev : List Node) → Entries Nat → List Token →
      Option (Step (List Node))
  | 0, _, _, _, _ => none
  | n + 1, isFirst, rev, names, tokens => do
    let tokens ← match tokens with
      | .flowEntry :: rest => if isFirst then some tokens else some rest
      | .flowSequenceEnd :: _ => some tokens
      | _ => if isFirst then some tokens else none
    match tokens with
    | .flowSequenceEnd :: rest => return (rev.reverse, names, rest)
    | .key :: rest =>
      let (key, names, rest) ← match rest with
        | .value :: rest | .flowEntry :: rest | .flowSequenceEnd :: rest =>
          some (empty, names, rest)
        | _ => ofTokens? handles n false false names rest
      let (value, names, rest) ← flowValue handles n names rest
      flowItems handles n false (.mapping none [(key, value)] :: rev) names rest
    | _ =>
      let (item, names, rest) ← ofTokens? handles n false false names tokens
      flowItems handles n false (item :: rev) names rest

/-- The entries of a mapping in brackets. -/
def flowEntries (handles : Entries String) :
    Nat → (isFirst : Bool) → (rev : List (Node × Node)) → Entries Nat → List Token →
      Option (Step (List (Node × Node)))
  | 0, _, _, _, _ => none
  | n + 1, isFirst, rev, names, tokens => do
    let tokens ← match tokens with
      | .flowEntry :: rest => if isFirst then some tokens else some rest
      | .flowMappingEnd :: _ => some tokens
      | _ => if isFirst then some tokens else none
    match tokens with
    | .flowMappingEnd :: rest => return (rev.reverse, names, rest)
    | .key :: rest =>
      let (key, names, rest) ← match rest with
        | .value :: _ | .flowEntry :: _ | .flowMappingEnd :: _ => some (empty, names, rest)
        | _ => ofTokens? handles n false false names rest
      let (value, names, rest) ← flowValue handles n names rest
      flowEntries handles n false ((key, value) :: rev) names rest
    | _ =>
      let (key, names, rest) ← ofTokens? handles n false false names tokens
      flowEntries handles n false ((key, empty) :: rev) names rest

/-- The value behind a key in brackets, which may be left out with or without its colon. -/
def flowValue (handles : Entries String) : Nat → Entries Nat → List Token → Option (Step Node)
  | 0, _, _ => none
  | n + 1, names, tokens =>
    match tokens with
    | .value :: rest =>
      match rest with
      | .flowEntry :: _ | .flowSequenceEnd :: _ | .flowMappingEnd :: _ =>
        some (empty, names, rest)
      | _ => ofTokens? handles n false false names rest
    | _ => some (empty, names, tokens)

end

mutual

/-- The nodes with anchors, in the order of the text, without their anchors. -/
def anchors : Node → List (Nat × Node)
  | .scalar _ | .reference _ => []
  | .sequence _ items => anchorsOfItems items
  | .mapping _ entries => anchorsOfEntries entries
  | .anchored id node => (id, node) :: anchors node

def anchorsOfItems : List Node → List (Nat × Node)
  | [] => []
  | x :: rest => anchors x ++ anchorsOfItems rest

def anchorsOfEntries : List (Node × Node) → List (Nat × Node)
  | [] => []
  | (k, x) :: rest => anchors k ++ anchors x ++ anchorsOfEntries rest

end

mutual

/-- The size of a node, in which lists and mappings count for their begin and their end. -/
def size : Node → Nat
  | .scalar _ | .reference _ => 1
  | .sequence _ items => 2 + sizeOfItems items
  | .mapping _ entries => 2 + sizeOfEntries entries
  | .anchored _ node => size node

def sizeOfItems : List Node → Nat
  | [] => 0
  | x :: rest => size x + sizeOfItems rest

def sizeOfEntries : List (Node × Node) → Nat
  | [] => 0
  | (k, x) :: rest => size k + size x + sizeOfEntries rest

end

end Node

end FormLayout.Yaml
