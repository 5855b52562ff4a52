/-! The operators of symbolic expressions, and their names in the facts. -/

namespace FactLift.Sym

/-- An operator of a compound expression. -/
inductive Op
  | plus | minus | mult | div | mod
  | band | bor | bxor | bnot | lnot | neg
  | eq | ne | lt | le | gt | ge
  | land | lor
  | shiftLt | shiftRt | lsl | lsr | asr
  | xbyte | lsb | lsh | range
deriving DecidableEq, Repr

namespace Op

def all : List Op :=
  [plus, minus, mult, div, mod, band, bor, bxor, bnot, lnot, neg, eq, ne, lt, le, gt, ge, land, lor,
    shiftLt, shiftRt, lsl, lsr, asr, xbyte, lsb, lsh, range]

def name : Op → String
  | plus => "plus"
  | minus => "minus"
  | mult => "mult"
  | div => "div"
  | mod => "mod"
  | band => "band"
  | bor => "bor"
  | bxor => "bxor"
  | bnot => "bnot"
  | lnot => "lnot"
  | neg => "neg"
  | eq => "eq"
  | ne => "ne"
  | lt => "lt"
  | le => "le"
  | gt => "gt"
  | ge => "ge"
  | land => "land"
  | lor => "lor"
  | shiftLt => "shiftlt"
  | shiftRt => "shiftrt"
  | lsl => "lsl"
  | lsr => "lsr"
  | asr => "asr"
  | xbyte => "xbyte"
  | lsb => "lsb"
  | lsh => "lsh"
  | range => "range"

def ofName? (name : String) : Option Op :=
  all.find? fun op => op.name == name

/-- The sign under which messages show the operator. -/
def symbol : Op → String
  | plus => "+"
  | minus => "-"
  | mult => "*"
  | div => "/"
  | mod => "%"
  | band => "&"
  | bor => "|"
  | bxor => "xor"
  | bnot => "~"
  | lnot => "!"
  | neg => "-"
  | eq => "=="
  | ne => "!="
  | lt => "<"
  | le => "<="
  | gt => ">"
  | ge => ">="
  | land => "&&"
  | lor => "||"
  | shiftLt | lsl => "<<"
  | shiftRt | lsr => ">>"
  | asr => "s>>"
  | xbyte => "xbyte"
  | lsb => "lsb"
  | lsh => "lsh"
  | range => "range"

/-- The operators that take one operand; all others take two. -/
def isUnary : Op → Bool
  | bnot | lnot | neg | lsb | lsh => true
  | _ => false

/-- The operators that compare. -/
def isComparison : Op → Bool
  | eq | ne | lt | le | gt | ge => true
  | _ => false

end Op

end FactLift.Sym
