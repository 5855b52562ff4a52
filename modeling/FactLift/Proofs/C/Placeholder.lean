import FactLift.C.TypeOf
import FactLift.Symbols.Navigate

/-! The placeholders of a tree.

`reasons` reads off why parts of a tree could not be resolved, from left to right. It goes into
every operand, into the indices of offsets and into the expression behind the address of a global;
of an lvalue it reads the host before the offset. A tree without reasons has no placeholder. The
types that a tree mentions are not part of it. -/

namespace FactLift.C

mutual

/-- The reasons of the placeholders in an expression, from left to right. -/
def Expr.reasons : Expr → List String
  | .unresolved reason => [reason]
  | .int _ _ | .float _ _ | .string _ _ | .sizeOf _ => []
  | .globalAddress _ e => e.reasons
  | .lval l | .addressOf l => l.reasons
  | .cast _ e => e.reasons
  | .unary _ e => e.reasons
  | .binary _ a b => a.reasons ++ b.reasons
  | .conditional c a b => c.reasons ++ a.reasons ++ b.reasons

/-- The reasons of the placeholders in an lvalue: those of its address, then those of its offset. -/
def Lval.reasons : Lval → List String
  | .var _ offset => offset.reasons
  | .mem e offset => e.reasons ++ offset.reasons

/-- The reasons of the placeholders in a chain of fields and indices. -/
def Offset.reasons : Offset → List String
  | .none => []
  | .field _ _ sub => sub.reasons
  | .index i sub => i.reasons ++ sub.reasons
  | .unresolved reason => [reason]

end

@[simp] theorem reasons_ofSymbol (s : Symbol) : (Expr.ofSymbol s).reasons = [] := by
  simp [Expr.ofSymbol, Expr.reasons, Lval.reasons, Offset.reasons]

end FactLift.C

namespace FactLift

open C

/-- A step into a type brings no placeholder: its index is a literal. -/
theorem Step.reasons_wrap (step : Step) (inner : Offset) :
    (step.wrap inner).reasons = inner.reasons := by
  cases step <;> simp [Step.wrap, Offset.reasons, Expr.reasons]

/-- A path in front of an offset brings no placeholder. -/
@[simp] theorem Path.reasons_wrap (path : Path) (inner : Offset) :
    (path.wrap inner).reasons = inner.reasons := by
  unfold Path.wrap
  induction path.steps with
  | nil => rfl
  | cons step steps ih => rw [List.foldr_cons, Step.reasons_wrap, ih]

end FactLift
