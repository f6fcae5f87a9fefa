import FormLayout.Document.Yaml.Node
/-!
Reading a YAML text of one document, and the value of this document. References are followed, but
only so often and so deep.
-/

namespace FormLayout.Yaml

/-- A document, with the nodes that its references stand for. A text without any token has none. -/
structure Document where
  root : Option Node
  anchors : List (Nat × Node)

namespace Document

def empty : Document := ⟨none, []⟩

/-- Of the nodes with one number the last one counts. -/
def ofRoot (root : Node) : Document := ⟨some root, root.anchors.reverse⟩

/-- What the directives in front of a document set: whether there is a version, and the handles. -/
def directives? : (hasVersion : Bool) → (handles : Entries String) → List Token →
    Option (Entries String × List Token)
  | hasVersion, handles, .directive (.version major minor) :: rest =>
    if !hasVersion && major = 1 && (minor = 1 || minor = 2) then directives? true handles rest
    else none
  | hasVersion, handles, .directive (.handle name start) :: rest =>
    if Entries.has handles name then none
    else directives? hasVersion (handles ++ [(name, start)]) rest
  | _, handles, rest => some (handles, rest)

/-- A document may be empty behind its mark. -/
def isEmptyBody : List Token → Bool
  | [] | .directive _ :: _ | .documentStart :: _ | .documentEnd :: _ => true
  | _ => false

def node? (handles : Entries String) (tokens : List Token) : Option (Node × List Token) :=
  (Node.ofTokens? handles (2 * tokens.length + 2) true false [] tokens).map fun x => (x.1, x.2.2)

/-- The document at the front of some tokens, and those that follow it. -/
def first? (tokens : List Token) : Option (Node × List Token) :=
  match tokens with
  | .directive _ :: _ | .documentStart :: _ => do
    match ← directives? false [] tokens with
    | (handles, .documentStart :: rest) =>
      if isEmptyBody rest then some (.empty, rest) else node? handles rest
    | _ => none
  | _ => node? [] tokens

/-- Nothing but marks of its end may follow the document. -/
def ofTokens? (tokens : List Token) : Option Document :=
  if tokens.isEmpty then some empty
  else do
    let (root, rest) ← first? tokens
    if (rest.dropWhile (· = .documentEnd)).isEmpty then some (ofRoot root) else none

/-- A node without its anchor, or the one it refers to, and whether it is a reference. -/
def follow (d : Document) : Node → Node × Bool
  | .anchored _ node => (node, false)
  | .reference id => ((d.anchors.lookup id).getD .empty, true)
  | node => (node, false)

/-- Only texts are keys. -/
def key? (d : Document) (node : Node) : Option (String × Bool) :=
  match d.follow node with
  | (.scalar s, isReference) => some (s.text, isReference)
  | _ => none

/-- Counts a reference, if one more may be followed. -/
def count? (jumps : Nat) (isReference : Bool) : Option Nat :=
  if !isReference then some jumps else if jumps = 0 then none else some (jumps - 1)

/-- The value of a node, with so many levels below it at most and so many references to follow. The
references that are left are returned. -/
def value? (d : Document) : (depth jumps : Nat) → Node → Option (Value × Nat)
  | depth, jumps, node => do
    let (node, isReference) := d.follow node
    let jumps ← count? jumps isReference
    match depth, node with
    | _, .scalar s => s.value?.map fun v => (v, jumps)
    | depth + 1, .sequence tag items =>
      if (tag.bind localName?).isSome then none
      else
        let (rev, jumps) ← items.foldlM (fun (rev, jumps) item => do
          let (v, jumps) ← value? d depth jumps item
          return (v :: rev, jumps)) ([], jumps)
        return (.array rev.reverse, jumps)
    | depth + 1, .mapping tag entries =>
      if (tag.bind localName?).isSome then none
      else
        let (rev, jumps) ← entries.foldlM (fun (rev, jumps) entry => do
          let (key, isReference) ← d.key? entry.1
          let (v, jumps) ← value? d depth (← count? jumps isReference) entry.2
          return ((key, v) :: rev, jumps)) ([], jumps)
        return (.object (Entries.ofList rev.reverse), jumps)
    | _, _ => none

/-- At most this many lists and mappings may stand in one another. -/
def depthLimit : Nat := 128

/-- The value of the document; null if there is none. -/
def toValue? (d : Document) : Option Value :=
  match d.root with
  | none => some .null
  | some root => (d.value? depthLimit (100 * root.size) root).map Prod.fst

end Document

/-- Reads a text of one document. -/
def read? (s : String) : Option Document := (Token.ofText? s).bind Document.ofTokens?

/-- The value of a text. -/
def readValue? (s : String) : Option Value := (read? s).bind Document.toValue?

end FormLayout.Yaml
