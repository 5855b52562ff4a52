import FactLift.Sym.Fold

/-! Simplification: constant subexpressions are folded, and constants added to or subtracted from a
common base are merged. The operands keep their order.

`simplify` works on an expression and leaves the variables in it alone. `settle` reaches the other
expressions, those inside variables, and simplifies them where they stand. -/

namespace FactLift.Sym

/-- The constant that is added, as `e + c`, or subtracted, as `e - c`. -/
def signedBy (op : Op) (c : Int64) : Int64 :=
  if op = .minus then -c else c

/-- A base moved by a constant, written without a sign in front of the constant. -/
def moved (base : Expr) (total : Int64) (w : Width) : Expr :=
  let total := w.normalize total
  if total == 0 then base
  else if total < 0 then .binary .minus base (.const (.atWidth (-total) w))
  else .binary .plus base (.const (.atWidth total w))

/-- Whether an operator adds or subtracts. -/
def isLinear : Op → Bool
  | .plus | .minus => true
  | _ => false

/-- The base, the constant moved by and its width, if an operand is a base moved by an integer. -/
def movedBy? : Expr → Option (Expr × Int64 × Width)
  | .apply op [base, .const (.int c w)] =>
    if isLinear op then some (base, signedBy op c, w) else none
  | _ => none

/-- Merges `(e ± c₁) ± c₂` into `e ± c` and `e ± 0` into `e`, at the widest width of the constants.
Everything else stays. -/
def simplifyLinear (x : Expr) : Expr :=
  match movedBy? x with
  | some (base, outer, w) =>
    match movedBy? base with
    | some (inner, c, w') => moved inner (c + outer) (w'.join w)
    | none => moved base outer w
  | none => x

/-- Folds an expression whose operands are simplified, or merges its constants. -/
def simplifyTop (x : Expr) : Expr :=
  match x.fold with
  | some c => .const c
  | none => simplifyLinear x

mutual

/-- Folds constant subexpressions and merges constants added to a common base. -/
def Expr.simplify : Expr → Expr
  | .const c => .const c
  | .var v => .var v
  | .apply op args => simplifyTop (.apply op (Expr.simplifyAll args))

def Expr.simplifyAll : List Expr → List Expr
  | [] => []
  | a :: rest => a.simplify :: Expr.simplifyAll rest

end

mutual

/-- Simplifies the expressions inside the variables of an expression. -/
def Expr.settle : Expr → Expr
  | .const c => .const c
  | .var v => .var v.settle
  | .apply op args => .apply op (Expr.settleAll args)

/-- Simplifies the expressions inside the variables of a list of expressions. -/
def Expr.settleAll : List Expr → List Expr
  | [] => []
  | a :: rest => a.settle :: Expr.settleAll rest

/-- Simplifies the expressions inside a variable. -/
def Variable.settle : Variable → Variable
  | ⟨name, number, meaning⟩ => ⟨name, number, meaning.settle⟩

/-- Simplifies the expressions inside what a variable denotes. -/
def Meaning.settle : Meaning → Meaning
  | .absent => .absent
  | .register name => .register name
  | .flag name => .flag name
  | .memory base size offset => .memory base.settle size offset.settle
  | .fixed value => .fixed value.settle

/-- Simplifies the expressions inside a memory base. -/
def Base.settle : Base → Base
  | .pointer v => .pointer v.settle
  | .localFrame => .localFrame
  | .allocatedFrame => .allocatedFrame
  | .realignedFrame => .realignedFrame
  | .globals => .globals
  | .unknown description => .unknown description

/-- Simplifies the expressions inside a chain of offsets. -/
def Offset.settle : Offset → Offset
  | .none => .none
  | .const value sub => .const value sub.settle
  | .field name key sub => .field name key sub.settle
  | .index i sub => .index i.settle.simplify sub.settle
  | .indexVar v elementSize sub => .indexVar v.settle elementSize sub.settle
  | .unknown => .unknown

/-- Simplifies the expressions inside a fixed value. -/
def FixedValue.settle : FixedValue → FixedValue
  | .initialRegister register level => .initialRegister register level
  | .initialMemory v => .initialMemory v.settle
  | .returnValue callSite callee => .returnValue callSite callee
  | .symbolic name x => .symbolic name x.settle.simplify

end

end FactLift.Sym
