/-! White space, and cutting text at it.

White space is the Unicode property `White_Space`. A line ends at a line feed; a carriage return
before it, being white space, falls to whoever trims the line. -/

namespace FactLift.Text

/-- The characters that are white space. -/
def isBlank (c : Char) : Bool :=
  let n := c.toNat
  (9 ≤ n && n ≤ 13) || n == 0x20 || n == 0x85 || n == 0xA0 || n == 0x1680 ||
    (0x2000 ≤ n && n ≤ 0x200A) || n == 0x2028 || n == 0x2029 || n == 0x202F || n == 0x205F ||
    n == 0x3000

/-- Drops the white space in front. -/
def trimLeft (cs : List Char) : List Char :=
  cs.dropWhile isBlank

/-- Drops the white space at the end. -/
def trimRight (cs : List Char) : List Char :=
  (cs.reverse.dropWhile isBlank).reverse

/-- Drops the white space on both sides. -/
def trim (cs : List Char) : List Char :=
  trimRight (trimLeft cs)

/-- Cuts at every element that satisfies `p`, which is dropped: one piece more than there are such
elements. -/
def splitBy {α : Type} (p : α → Bool) : List α → List (List α)
  | [] => [[]]
  | c :: cs =>
    match splitBy p cs with
    | [] => [[]]
    | piece :: pieces => if p c then [] :: piece :: pieces else (c :: piece) :: pieces

/-- The longest stretches without an element that satisfies `p`. -/
def stretches {α : Type} (p : α → Bool) (as : List α) : List (List α) :=
  (splitBy p as).filter fun piece => !piece.isEmpty

/-- The words of a text: its longest stretches without white space. -/
def words (cs : List Char) : List (List Char) :=
  stretches isBlank cs

/-- The lines of a text. A line feed at the very end does not start another line. -/
def lines (cs : List Char) : List (List Char) :=
  let pieces := splitBy (· == '\n') cs
  if pieces.getLast? == some [] then pieces.dropLast else pieces

/-- The text before and after the first character that satisfies `p`, if there is one. -/
def splitFirst (p : Char → Bool) : List Char → Option (List Char × List Char)
  | [] => none
  | c :: cs =>
    if p c then some ([], cs)
    else (splitFirst p cs).map fun (before, after) => (c :: before, after)

/-- The text before and after the first `mark`, if there is one. -/
def splitOnce (mark : Char) (cs : List Char) : Option (List Char × List Char) :=
  splitFirst (· == mark) cs

end FactLift.Text
