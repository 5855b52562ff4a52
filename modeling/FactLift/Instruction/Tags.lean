import FactLift.Record.Basic
import FactLift.Text.Integer

/-! What the tags of an instruction's fact record say.

The first tag is the key. The second may mark an argument of a call, a call or a branch; others are
flags that may stand anywhere after the key. -/

namespace FactLift

/-- The two forms of a key with letters. -/
inductive KeyForm
  /-- `a:`, where every value has to be there. -/
  | plain
  /-- `ar:`, whose results may be marked as not available. -/
  | result
deriving DecidableEq, Repr

namespace Record

/-- The key: the first tag. -/
abbrev key (r : Record) : String := r.kind

/-- The letters of a key, and its form; no other key has letters. -/
def letters? (r : Record) : Option (KeyForm × List Char) :=
  match r.key.toList with
  | 'a' :: 'r' :: ':' :: letters => some (.result, letters)
  | 'a' :: ':' :: letters => some (.plain, letters)
  | _ => none

/-- Whether a flag stands after the key. -/
def hasFlag (r : Record) (flag : String) : Bool :=
  (r.tags.drop 1).contains flag

/-- Whether two more arguments update a base. -/
def hasBaseUpdate (r : Record) : Bool := r.hasFlag "bu"

/-- Whether one more argument is a returned value. -/
def hasReturnValue (r : Record) : Bool := r.hasFlag "rv"

/-- Whether the instruction is part of another one. -/
def isSubsumed (r : Record) : Bool := r.hasFlag "subsumed"

def hasInstructionCondition (r : Record) : Bool := r.hasFlag "ic"

/-- Whether the instruction is conditional on something unknown. -/
def hasUnknownCondition (r : Record) : Bool := r.hasFlag "uc"

/-- Whether the last argument names the function called: the record is marked as a call, or its only
tag is a plain key with one letter fewer than there are arguments. -/
def hasCallTarget (r : Record) : Bool :=
  match r.tags with
  | [_] =>
    match r.letters? with
    | some (.plain, letters) => r.args.length == letters.length + 1
    | _ => false
  | [_, tag] => tag == "call"
  | _ => false

/-- Whether the record is about an argument of a call. -/
def isFunctionArgument (r : Record) : Bool :=
  r.tags[1]? == some "arg"

/-- Drops every `0x` in front. -/
def dropMarks : List Char → List Char
  | '0' :: 'x' :: rest => dropMarks rest
  | cs => cs

/-- The site of the call that the record is about an argument of. -/
def callSite? (r : Record) : Option UInt64 :=
  if r.isFunctionArgument then
    r.tags[2]?.bind fun tag => Text.readUInt64? 16 (dropMarks tag.toList)
  else none

def hasBranchConditions (r : Record) : Bool :=
  r.tags[1]? == some "TF"

/-- Whether the record says which instruction sets the condition, and how. -/
def hasConditionSetter (r : Record) : Bool :=
  r.hasBranchConditions && r.tags.length == 4

/-- The instruction that sets the condition. -/
def conditionSetter? (r : Record) : Option String :=
  if r.hasBranchConditions then r.tags[2]? else none

end Record

end FactLift
