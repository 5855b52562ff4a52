import FactLift.Instruction.Opcode
import FactLift.Instruction.Decode
import FactLift.Symbols.Locals

/-! The facts of a program: global tables, and the functions with their instructions. -/

namespace FactLift

/-- An instruction: where it is, what kind it is of, and its fact record. -/
structure InstructionFacts where
  address : UInt64
  size : Nat
  operation : Operation
  record : Record

/-- A parameter, and where it is when the function is entered. -/
structure Formal where
  name : String
  type : C.Ty
  location : ParameterLocation

/-- Everything known about a function. -/
structure FunctionFacts where
  name : String
  address : UInt64
  formals : List Formal
  dictionary : Dictionary
  /-- The dataflow facts, if the function comes with any. -/
  flows : Option FlowStore
  instructions : List InstructionFacts

/-- Everything known about a program. -/
structure ProgramFacts where
  name : String
  globals : Globals
  strings : List String
  types : List C.Ty
  functions : List FunctionFacts
  /-- The functions whose facts are not in order, and why. -/
  rejected : List (String × Error)

/-- What the records of a function are decoded against. -/
def ProgramFacts.context (p : ProgramFacts) (f : FunctionFacts) : DecodeContext where
  dictionary := f.dictionary
  strings := p.strings
  types := p.types
  flows := f.flows

/-- The addresses that the branches of a function lead to. -/
def FunctionFacts.branchTargets (f : FunctionFacts) : List UInt64 :=
  f.instructions.filterMap fun i => i.operation.branchTarget?

end FactLift
