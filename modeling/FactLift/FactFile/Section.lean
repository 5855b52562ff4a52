import FactLift.Text.Blank

/-! Sections of a fact file.

A file is a sequence of sections with blank lines between them. Lines that start with `#` are
comments and count for nothing, not even as blank lines. White space at the end of a line does not
belong to it. -/

namespace FactLift.FactFile

/-- A line with its number, counted from one. -/
structure Line where
  number : Nat
  text : List Char
deriving DecidableEq, Repr

namespace Line

/-- Whether the line has nothing on it. -/
def isBlank (l : Line) : Bool :=
  (Text.trim l.text).isEmpty

def isComment (l : Line) : Bool :=
  (Text.trimLeft l.text).head? == some '#'

def words (l : Line) : List String :=
  (Text.words l.text).map String.ofList

/-- The line as text. -/
def string (l : Line) : String :=
  String.ofList l.text

end Line

/-- A header and the lines below it. -/
structure Section where
  header : Line
  body : List Line
deriving DecidableEq, Repr

/-- The lines of a text that are no comments. -/
def linesOf (text : String) : List Line :=
  ((Text.lines text.toList).zipIdx.map fun (l, i) => ⟨i + 1, Text.trimRight l⟩).filter
    fun l => !l.isComment

/-- The section that some lines make up. -/
def sectionOf? : List Line → Option Section
  | [] => none
  | header :: body => some { header, body }

def sections (text : String) : List Section :=
  (Text.stretches Line.isBlank (linesOf text)).filterMap sectionOf?

end FactLift.FactFile
