import FormLayout.Document.Toml.Node
import FormLayout.Number.Radix
import FormLayout.Text.Pieces
/-!
The words of TOML: booleans, integers, floating point numbers, dates and times.
-/

namespace FormLayout.Toml

/-- Digits, with single underscores between them. -/
def isGrouped (isDigit : Char → Bool) (cs : List Char) : Bool :=
  (Text.pieces '_' cs).all fun piece => !piece.isEmpty && piece.all isDigit

/-- Decimal digits without a needless zero in front. -/
def isDecimal (cs : List Char) : Bool :=
  isGrouped Char.isDigit cs && (cs.head? ≠ some '0' || cs.length = 1)

def isBased : List Char → Bool
  | '0' :: 'x' :: rest => isGrouped (fun c => (Radix.digit? 16 c).isSome) rest
  | '0' :: 'o' :: rest => isGrouped (fun c => (Radix.digit? 8 c).isSome) rest
  | '0' :: 'b' :: rest => isGrouped (fun c => (Radix.digit? 2 c).isSome) rest
  | _ => false

def unsigned : List Char → List Char
  | '+' :: rest | '-' :: rest => rest
  | cs => cs

def isExponent : List Char → Bool
  | c :: rest => (c = 'e' || c = 'E') && isGrouped Char.isDigit (unsigned rest)
  | [] => false

/-- The fraction and the exponent of a number, of which one may be missing. -/
def isFraction : List Char → Bool
  | '.' :: rest =>
    let isMark (c : Char) : Bool := c = 'e' || c = 'E'
    let exponent := rest.dropWhile fun c => !isMark c
    isGrouped Char.isDigit (rest.takeWhile fun c => !isMark c) &&
      (exponent.isEmpty || isExponent exponent)
  | cs => isExponent cs

def isNumber (cs : List Char) : Bool :=
  let body := unsigned cs
  let isWhole (c : Char) : Bool := c.isDigit || c = '_'
  let rest := body.dropWhile isWhole
  isBased cs || body = ['i', 'n', 'f'] || body = ['n', 'a', 'n'] ||
    (isDecimal (body.takeWhile isWhole) && (rest.isEmpty || isFraction rest))

def twoDigits? : List Char → Option (Nat × List Char)
  | a :: b :: rest =>
    if a.isDigit && b.isDigit then (Radix.natural? 10 [a, b]).map fun n => (n, rest) else none
  | _ => none

def daysOfMonth (year month : Nat) : Nat :=
  let isLeap := year % 4 = 0 && (year % 100 ≠ 0 || year % 400 = 0)
  if month = 2 then if isLeap then 29 else 28
  else if [4, 6, 9, 11].contains month then 30
  else 31

/-- What follows a date. -/
def afterDate? (cs : List Char) : Option (List Char) := do
  let (century, rest) ← twoDigits? cs
  match ← twoDigits? rest with
  | (year, '-' :: rest) =>
    match ← twoDigits? rest with
    | (month, '-' :: rest) =>
      let (day, rest) ← twoDigits? rest
      let days := daysOfMonth (100 * century + year) month
      if 1 ≤ month && month ≤ 12 && 1 ≤ day && day ≤ days then some rest else none
    | _ => none
  | _ => none

/-- What follows hours and minutes. -/
def afterMinutes? (cs : List Char) : Option (List Char) := do
  match ← twoDigits? cs with
  | (hour, ':' :: rest) =>
    let (minute, rest) ← twoDigits? rest
    if hour ≤ 23 && minute ≤ 59 then some rest else none
  | _ => none

/-- What follows a time, which may end with seconds and a fraction of them. -/
def afterTime? (cs : List Char) : Option (List Char) := do
  match ← afterMinutes? cs with
  | ':' :: rest =>
    let (second, rest) ← twoDigits? rest
    if 60 < second then none
    else
      match rest with
      | '.' :: rest =>
        if (rest.head?.map Char.isDigit).getD false then some (rest.dropWhile Char.isDigit)
        else none
      | _ => some rest
  | rest => some rest

/-- Whether a text is the distance of a zone, if any. -/
def isZone : List Char → Bool
  | [] | ['Z'] | ['z'] => true
  | c :: rest => (c = '+' || c = '-') && afterMinutes? rest = some []

def isDate (cs : List Char) : Bool := afterDate? cs = some []

/-- A date, a time, or both, and then maybe with a zone. -/
def isMoment (cs : List Char) : Bool :=
  match afterDate? cs with
  | some [] => true
  | some (c :: rest) =>
    (c = 'T' || c = 't' || c = ' ') && ((afterTime? rest).map isZone).getD false
  | none => afterTime? cs = some []

/-- The value of a word. -/
def word? (cs : List Char) : Option Node :=
  if cs = ['t', 'r', 'u', 'e'] then some (.bool true)
  else if cs = ['f', 'a', 'l', 's', 'e'] then some (.bool false)
  else if isNumber cs || isMoment cs then some .other
  else none

end FormLayout.Toml
