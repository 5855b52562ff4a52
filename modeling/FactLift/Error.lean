import FactLift.Text.Quoted

/-! What can stop the decoding of a record, the loading of facts or the lifting of a function.

A value that merely cannot be resolved is no error: it becomes a placeholder and a diagnostic. A
fault is worse than an error: nothing is left out for it, the whole run is over. -/

namespace FactLift

/-- The two families of results that may come with committed counterparts. -/
inductive ResultFamily
  | vars
  | expressions
deriving DecidableEq, Repr

def ResultFamily.name : ResultFamily → String
  | .vars => "variables"
  | .expressions => "expressions"

/-- The reasons for which decoding, loading or lifting stops. -/
inductive Error
  /-- A letter of a record's key that stands for no field. -/
  | unknownKeyLetter (index : Nat) (key : String) (letter : Char)
  /-- A key, or a mnemonic, that is not known at all. -/
  | unsupportedKey (index : Nat) (key : String)
  /-- Not as many arguments as the key asks for. -/
  | argumentCountMismatch (index : Nat) (key : String) (expected found : Nat)
  /-- An argument that is neither an index nor an error mark. -/
  | invalidArgument (index position : Nat) (raw : Int64)
  /-- An error mark under a letter that has to have a value. -/
  | unexpectedErrorValue (index position : Nat) (letter : Char)
  /-- Committed values that do not line up with the results. -/
  | committedCountMismatch (index : Nat) (family : ResultFamily) (committed results : Nat)
  /-- An opcode record of the wrong shape. -/
  | opcodeContract (opcode : String) (expectedTags expectedArgs tags args : Nat)
  /-- An index with no entry in its table. -/
  | indexOutOfRange (table : String) (index : Nat)
  /-- A record that does not have the shape its table asks for. -/
  | malformed (table : String) (index : Nat) (reason : String)
  /-- A record whose fields are asked for before it was decoded. -/
  | notDecoded (index : Nat)
  /-- A variable whose type was settled before. -/
  | typeAlreadyRefined (name : String)
  /-- Two different composites under one key. -/
  | conflictingComposite (key : Nat) (name : String)
  /-- A fact file that cannot be read at some line. -/
  | parse (line : Nat) (reason : String)
deriving DecidableEq, Repr

def Error.message : Error → String
  | .unknownKeyLetter index key letter =>
    s!"record {index}: key letter {Text.quoteChar letter} in {Text.quote key} not recognized"
  | .unsupportedKey index key => s!"record {index}: key {Text.quote key} not supported"
  | .argumentCountMismatch index key expected found =>
    s!"record {index}: key {Text.quote key} needs {expected} arguments, found {found}"
  | .invalidArgument index position raw =>
    s!"record {index}: invalid argument {raw.toInt} at position {position}"
  | .unexpectedErrorValue index position letter =>
    s!"record {index}: error-valued argument at position {position} for letter " ++
      Text.quoteChar letter
  | .committedCountMismatch index family committed results =>
    s!"record {index}: {committed} committed {family.name} for {results} results"
  | .opcodeContract opcode expectedTags expectedArgs tags args =>
    s!"opcode {opcode}: expected {expectedTags} tags and {expectedArgs} args, " ++
      s!"got {tags} tags and {args} args"
  | .indexOutOfRange table index => s!"{table}: index {index} out of range"
  | .malformed table index reason => s!"{table}: malformed record {index}: {reason}"
  | .notDecoded index => s!"xdata record {index} accessed before decoding"
  | .typeAlreadyRefined name => s!"type of {name} has already been refined"
  | .conflictingComposite key name =>
    s!"composite key {key} ({name}) registered with conflicting definitions"
  | .parse line reason => s!"fact file, line {line}: {reason}"

/-- The faults that end a run. -/
inductive Fault
  /-- A type contains itself by value, and measuring it goes on without end. -/
  | endless
  /-- The least word is divided by minus one. -/
  | quotient
deriving DecidableEq, Repr

namespace Fault

/-- The exit code of a run that ends with a fault. -/
def exit : Fault → Nat
  | endless => 134
  | quotient => 101

/-- The fault that a computation ends with, if it does. -/
def of? {α : Type} : Except Fault α → Option Fault
  | .ok _ => none
  | .error fault => some fault

end Fault

end FactLift
