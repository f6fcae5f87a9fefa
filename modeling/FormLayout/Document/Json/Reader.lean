import FormLayout.Document.Json.Token
/-!
Reading JSON text: a machine with a stack of the open arrays and objects runs over its tokens.
-/

namespace FormLayout.Json

/-- An array or object that is still open, with what it holds so far in reverse. -/
inductive Frame where
  | array (rev : List Tree)
  | object (rev : List (Option String × Tree)) (key : Option String)

inductive Need where
  | value
  | valueOrClose
  | key
  | keyOrClose
  | colon
  | separator
  deriving DecidableEq

inductive Machine where
  | running (frames : List Frame) (need : Need)
  | done (t : Tree)

namespace Machine

def start : Machine := .running [] .value

def complete (t : Tree) : List Frame → Machine
  | [] => .done t
  | .array rev :: frames => .running (.array (t :: rev) :: frames) .separator
  | .object rev key :: frames => .running (.object ((key, t) :: rev) none :: frames) .separator

/-- Opens an array or object where a value may stand, unless too many are open. -/
def enter? (limit : Option Nat) (f : Frame) (inside : Need) (frames : List Frame) (need : Need) :
    Option Machine :=
  let isFull := (limit.map fun n => decide (n ≤ frames.length)).getD false
  if (need = .value || need = .valueOrClose) && !isFull then some (.running (f :: frames) inside)
  else none

def step (limit : Option Nat) : Machine → Token → Option Machine
  | .running frames need, .scalar t =>
    match need, frames, t with
    | .value, _, _ => some (complete t frames)
    | .valueOrClose, _, _ => some (complete t frames)
    | .key, .object rev _ :: rest, .string k => some (.running (.object rev k :: rest) .colon)
    | .keyOrClose, .object rev _ :: rest, .string k =>
      some (.running (.object rev k :: rest) .colon)
    | _, _, _ => none
  | .running frames need, .openArray => enter? limit (.array []) .valueOrClose frames need
  | .running frames need, .openObject => enter? limit (.object [] none) .keyOrClose frames need
  | .running (.array rev :: frames) need, .closeArray =>
    if need = .valueOrClose || need = .separator then some (complete (.array rev.reverse) frames)
    else none
  | .running (.object rev _ :: frames) need, .closeObject =>
    if need = .keyOrClose || need = .separator then some (complete (.object rev.reverse) frames)
    else none
  | .running (.array rev :: frames) .separator, .comma =>
    some (.running (.array rev :: frames) .value)
  | .running (.object rev k :: frames) .separator, .comma =>
    some (.running (.object rev k :: frames) .key)
  | .running frames .colon, .colon => some (.running frames .value)
  | _, _ => none

end Machine

/-- Reads a text in which no more than the given number of arrays and objects, if any, are open at
a time. -/
def readTree? (limit : Option Nat) (s : String) : Option Tree := do
  match ← (← Token.ofText? s).foldlM (Machine.step limit) .start with
  | .done t => some t
  | .running _ _ => none

/-- At most this many arrays and objects of a value may stand in one another. -/
def depthLimit : Nat := 127

/-- Reads the value of a text. A repeated name keeps its first place and its last value. -/
def read? (s : String) : Option Value := (readTree? (some depthLimit) s).bind Tree.value?

end FormLayout.Json
