/-!
The kinds of nodes of a form tree and what each may hold.
-/

namespace FormLayout

inductive NodeKind where
  | tab
  | palette
  | field
  | lineBreak
  deriving DecidableEq, Repr

namespace NodeKind

def name : NodeKind → String
  | .tab => "tab"
  | .palette => "palette"
  | .field => "field"
  | .lineBreak => "line break"

def isContainer : NodeKind → Bool
  | .tab | .palette => true
  | .field | .lineBreak => false

/-- Tabs hold everything but tabs, palettes hold fields and line breaks. -/
def canContain : NodeKind → NodeKind → Bool
  | .tab, child => child ≠ .tab
  | .palette, child => child = .field || child = .lineBreak
  | .field, _ | .lineBreak, _ => false

end NodeKind

end FormLayout
