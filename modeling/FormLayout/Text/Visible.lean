/-!
Text for a terminal. The characters that steer it are shown as escapes, and all others as they are.
-/

namespace FormLayout.Text

/-- How a character is shown: bell, backspace, form feed, escape, delete and the second block of
control characters by number. -/
def visibleChar (c : Char) : List Char :=
  let n := c.toNat
  if n = 0x07 || n = 0x08 || n = 0x0C || n = 0x1B || n = 0x7F then
    ['\\', 'x'] ++ (if n < 16 then ['0'] else []) ++ Nat.toDigits 16 n
  else if 0x80 ≤ n && n ≤ 0x9F then "\\u\x7b".toList ++ Nat.toDigits 16 n ++ "\x7d".toList
  else [c]

def visible (s : String) : String := String.ofList (s.toList.flatMap visibleChar)

end FormLayout.Text
