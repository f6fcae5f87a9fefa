import FormLayout.Document.Yaml.Place
/-!
A sheet that YAML is written on. It knows the column of the pen, whether the pen stands behind a
space, and whether the line holds nothing but indentation and marks that belong to it.
-/

namespace FormLayout.Yaml

structure Sheet where
  text : String
  column : Nat
  spaced : Bool
  indenting : Bool

namespace Sheet

def empty : Sheet := ⟨"", 0, true, true⟩

/-- Writes characters that are no line breaks. -/
def put (s : Sheet) (cs : List Char) : Sheet :=
  { s with text := s.text ++ String.ofList cs, column := s.column + cs.length }

/-- Starts a new line. -/
def newLine (s : Sheet) : Sheet := { s with text := s.text.push '\n', column := 0 }

/-- Writes a line break of a text, as it is. -/
def lineBreak (s : Sheet) (c : Char) : Sheet :=
  { s with text := s.text.push c, column := 0, indenting := true }

/-- Goes to a column of the line, or of the next one if this line holds something already. -/
def indent (s : Sheet) (column : Nat) : Sheet :=
  let s := if !s.indenting || column < s.column || (s.column = column && !s.spaced) then s.newLine
    else s
  { s.put (List.replicate (column - s.column) ' ') with spaced := true, indenting := true }

/-- Writes a mark, with a space in front if there is none. A mark that belongs to the indentation
leaves the line as empty as it was. -/
def mark (s : Sheet) (cs : List Char) (needsSpace indents : Bool) : Sheet :=
  let s := if needsSpace && !s.spaced then s.put [' '] else s
  { s.put cs with spaced := false, indenting := s.indenting && indents }

/-- The characters of a text at a column: line breaks are kept, and the text goes on at the column.
The text stands on a line of its own or behind other text. -/
def lines (column : Nat) (write : Char → List Char) : (atBreak : Bool) → Sheet → List Char → Sheet
  | _, s, [] => s
  | atBreak, s, c :: rest =>
    if isBreak c then lines column write true (s.lineBreak c) rest
    else
      let s := if atBreak then s.indent column else s
      lines column write false { s.put (write c) with indenting := false } rest

end Sheet

end FormLayout.Yaml
