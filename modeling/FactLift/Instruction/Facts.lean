import FactLift.Instruction.Decode

/-! The facts of one instruction: its record, and the outcome of decoding it.

A record is decoded at most once. The outcome is kept, failures included, and later questions are
answered from it. -/

namespace FactLift

/-- A fact record, with the outcome of decoding it once that has happened. -/
structure InstrFacts where
  record : Record
  outcome : Option (Except Error Decoded) := none

namespace InstrFacts

/-- Decodes the record, unless that has happened. -/
def decode (f : InstrFacts) (cx : DecodeContext) : InstrFacts :=
  match f.outcome with
  | some _ => f
  | none => { f with outcome := some (decodeRecord cx f.record) }

/-- The fields of the record, which must have been decoded before. -/
def decoded (f : InstrFacts) : Except Error Decoded :=
  f.outcome.getD (.error (.notDecoded f.record.index))

/-- Whether all results of the record have values. -/
def isOk (f : InstrFacts) : Except Error Bool :=
  return (← f.decoded).isOk

/-- The positions of the results without a value. -/
def gaps (f : InstrFacts) : Except Error (List Nat × List Nat × List Nat) :=
  return (← f.decoded).gaps

/-- The conditions of a branch, if the record has them: taken, not taken. -/
def branchConditions (f : InstrFacts) : Except Error (Option (List Sym.Expr)) :=
  if f.record.hasBranchConditions then return some (← f.decoded).exprs else return none

end InstrFacts

end FactLift
