/-
UnwindTables.Text.Quoted — text between quotes, on one line.

* `Quoted.text` — a text in double quotes; `Quoted.character` — a character in single quotes.

A few control characters have an escape of their own, the enclosing quote and the backslash are
escaped by a backslash, and every other character that is not printable is given by its code point.
-/
import UnwindTables.Text.Hex
import UnwindTables.Text.Printable

namespace UnwindTables.Quoted

/-- A character between quotes of the given kind. -/
def escape (quote c : Char) : String :=
  if c = '\x00' then "\\0"
  else if c = '\t' then "\\t"
  else if c = '\r' then "\\r"
  else if c = '\n' then "\\n"
  else if c = quote ∨ c = '\\' then "\\" ++ c.toString
  else if isPrintable c then c.toString
  else "\\u\x7b" ++ String.ofList (Hex.digits c.toNat) ++ "\x7d"

/-- A text in double quotes. -/
def text (s : String) : String := "\"" ++ String.join (s.toList.map (escape '"')) ++ "\""

/-- A character in single quotes. -/
def character (c : Char) : String := "'" ++ escape '\'' c ++ "'"

end UnwindTables.Quoted
