import FactLift.Text.Combining
import FactLift.Text.Hex
import FactLift.Text.Unprintable

/-! Quoted text.

Two conventions are in use. Messages quote names so that a reader sees every character as it is
where that is possible: `quote` and `quoteChar` escape the quote mark, the backslash and whatever
would not show. Literals of the printed program stay inside ASCII: `escapeAscii` writes every other
character by its code point. -/

namespace FactLift.Text

def escapeCodePoint (c : Char) : String :=
  "\\u\x7b" ++ hexDigits c.toNat ++ "\x7d"

/-- A character of quoted text, where `mark` is the quote mark. -/
def escapeWithin (mark : Char) (c : Char) : String :=
  if c = '\x00' then "\\0"
  else if c = '\t' then "\\t"
  else if c = '\r' then "\\r"
  else if c = '\n' then "\\n"
  else if c = '\\' || c = mark then "\\" ++ c.toString
  else if isCombining c || isUnprintable c then escapeCodePoint c
  else c.toString

/-- A text between double quotes, as messages show it. -/
def quote (s : String) : String :=
  "\"" ++ String.join (s.toList.map (escapeWithin '"')) ++ "\""

/-- A character between single quotes, as messages show it. -/
def quoteChar (c : Char) : String :=
  "'" ++ escapeWithin '\'' c ++ "'"

/-- A character of a literal that stays inside ASCII. -/
def escapeAsciiChar (c : Char) : String :=
  if c = '\t' then "\\t"
  else if c = '\r' then "\\r"
  else if c = '\n' then "\\n"
  else if c = '\'' || c = '"' || c = '\\' then "\\" ++ c.toString
  else if 0x20 ≤ c.toNat && c.toNat ≤ 0x7E then c.toString
  else escapeCodePoint c

/-- A literal's text, inside ASCII. -/
def escapeAscii (s : String) : String :=
  String.join (s.toList.map escapeAsciiChar)

/-- The elements of a list between brackets, as messages show positions. -/
def bracketed (positions : List Nat) : String :=
  "[" ++ ", ".intercalate (positions.map toString) ++ "]"

end FactLift.Text
