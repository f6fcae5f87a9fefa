import FormLayout.Error
import FormLayout.Text.Blank
import FormLayout.Text.Pieces
/-!
Positions: where a node is to be moved. A position is written as a word, a colon and the id of the
node it refers to; the empty text is the default position.
-/

namespace FormLayout

/-- A place in a form tree, most often relative to another node. -/
inductive Position where
  | default
  | top (target : String)
  | bottom (target : String)
  | before (target : String)
  | after (target : String)
  deriving DecidableEq, Repr

namespace Position

def target? : Position → Option String
  | .default => none
  | .top id | .bottom id | .before id | .after id => some id

def text : Position → String
  | .default => ""
  | .top id => "top:" ++ id
  | .bottom id => "bottom:" ++ id
  | .before id => "before:" ++ id
  | .after id => "after:" ++ id

/-- The position of a word and a target; the case of ASCII letters does not count. -/
def ofWord? (word target : String) : Option Position :=
  if word = "top" then some (.top target)
  else if word = "bottom" then some (.bottom target)
  else if word = "before" then some (.before target)
  else if word = "after" then some (.after target)
  else none

/-- Reads a position. Only the first colon divides, so the target may contain colons. -/
def parse (s : String) : Except Error Position :=
  match Text.trimChars s.toList with
  | [] => .ok .default
  | cs =>
    match cs.dropWhile (· ≠ ':') with
    | [] => .error (.invalidPosition s .noColon)
    | _ :: rest =>
      match Text.trimChars rest with
      | [] => .error (.invalidPosition s .noTarget)
      | target =>
        let word := Text.lower (String.ofList (Text.trimChars (cs.takeWhile (· ≠ ':'))))
        match ofWord? word (String.ofList target) with
        | some p => .ok p
        | none => .error (.invalidPosition s (.unknownPlace word))

end Position

end FormLayout
