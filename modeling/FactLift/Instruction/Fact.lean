/-! Values that the analysis behind the facts may have failed to give. -/

namespace FactLift

/-- A value, or why there is none. -/
inductive Fact (α : Type)
  | present (value : α)
  /-- Not given. -/
  | missing
  /-- Marked as not available. -/
  | failed
deriving DecidableEq, Repr

namespace Fact

variable {α β : Type}

def value? : Fact α → Option α
  | present a => some a
  | _ => none

def isPresent : Fact α → Bool
  | present _ => true
  | _ => false

/-- Applies a function to the value. -/
def map (f : α → β) : Fact α → Fact β
  | present a => present (f a)
  | missing => missing
  | failed => failed

def text (valueText : α → String) : Fact α → String
  | present a => valueText a
  | missing => "-"
  | failed => "error-value"

def gaps (facts : List (Fact α)) : List Nat :=
  (facts.zipIdx.filter fun (f, _) => !f.isPresent).map (·.2)

end Fact

end FactLift
