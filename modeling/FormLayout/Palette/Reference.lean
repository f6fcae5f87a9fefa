import FormLayout.Text.Blank
import FormLayout.Text.Pieces
/-!
Pointing the palette items of a show item at another palette. Only the last part of such an item is
a reference; everything else stays as it is, blanks included.
-/

namespace FormLayout.Palette

/-- Replaces a name that has only blanks around it, with as many as possible in front. -/
def swapName? (name other : List Char) : List Char → Option (List Char)
  | [] => if name = [] then some other else none
  | c :: rest =>
    match if Text.isBlank c then (swapName? name other rest).map (c :: ·) else none with
    | some cs => some cs
    | none =>
      match Text.after? name (c :: rest) with
      | some tail => if tail.all Text.isBlank then some (other ++ tail) else none
      | none => none

/-- Replaces the name in the parts after the leading one. The reference starts at the last
semicolon after which nothing but the name is left. -/
def swapReference? (name other : List Char) : List (List Char) → Option (List (List Char))
  | [] => none
  | part :: rest =>
    match swapReference? name other rest with
    | some parts => some (part :: parts)
    | none => (swapName? name other ([';'].intercalate (part :: rest))).map ([·])

def isPaletteToken (part : List Char) : Bool :=
  (Text.trimChars part).map Char.toLower = "--palette--".toList

/-- One piece between commas with its reference replaced, if it has one to the name. -/
def renameSegment (name other segment : List Char) : List Char :=
  match Text.pieces ';' segment with
  | [] => segment
  | lead :: rest =>
    if isPaletteToken lead then
      match swapReference? name other rest with
      | some parts => [';'].intercalate (lead :: parts)
      | none => segment
    else segment

/-- Points every palette item that refers to `name` at `other`. -/
def renameReference (showItem name other : String) : String :=
  String.ofList <| [','].intercalate <|
    (Text.pieces ',' showItem.toList).map (renameSegment name.toList other.toList)

end FormLayout.Palette
