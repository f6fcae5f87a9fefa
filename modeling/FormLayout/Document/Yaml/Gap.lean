import FormLayout.Document.Yaml.Place
/-!
The gaps between the words of a text that goes over several lines. A line break counts as a space,
and empty lines count as line breaks.
-/

namespace FormLayout.Yaml

/-- The gap behind a word: the spaces on its line or, once a line break is met, this break and
those of the empty lines. A break may be escaped and then counts as nothing. -/
inductive Gap where
  | onLine (spaces : List Char)
  | broken (first : Option Char) (more : List Char)

namespace Gap

def none : Gap := .onLine []

def isNone : Gap → Bool
  | .onLine spaces => spaces.isEmpty
  | .broken _ _ => false

def isBroken : Gap → Bool
  | .onLine _ => false
  | .broken _ _ => true

/-- Spaces at the front of a line do not count. -/
def space (c : Char) : Gap → Gap
  | .onLine spaces => .onLine (spaces ++ [c])
  | .broken first more => .broken first more

/-- Spaces at the end of a line do not count. -/
def lineBreak (c : Char) : Gap → Gap
  | .onLine _ => .broken (some c) []
  | .broken first more => .broken first (more ++ [c])

/-- What the gap is in the text. -/
def fold : Gap → List Char
  | .onLine spaces => spaces
  | .broken (some '\n') [] => [' ']
  | .broken (some '\n') more => more
  | .broken first more => first.toList ++ more

end Gap

/-- Whether a line starts with a mark between documents. -/
def isDocumentMark : List Char → Bool
  | '-' :: '-' :: '-' :: rest => isGap rest
  | '.' :: '.' :: '.' :: rest => isGap rest
  | _ => false

end FormLayout.Yaml
