import FactLift.Sym.Basic

/-! Folding and evaluation of constant expressions.

`fold` computes in machine words and `evaluate` over the integers, cut to the width after every
operation. An operation happens at the widest width among its operands; comparisons and logical
operators always give a 32-bit truth value. Division by zero, a shift or a byte position outside the
word, and operators without a meaning on constants have no value. -/

namespace FactLift.Sym

/-- The widest width in a list, and 32 bits for an empty one. -/
def joinWidths (ws : List Width) : Width :=
  ws.foldl Width.join .w32

/-- A truth value. -/
def Constant.ofBool (b : Bool) : Constant :=
  .int (if b then 1 else 0) .w32

/-- A constant of a given width, cut to it. -/
def Constant.atWidth (v : Int64) (w : Width) : Constant :=
  .int (w.normalize v) w

/-- A word as a position below `limit`. -/
def position? (v : Int64) (limit : Nat) : Option Nat :=
  if 0 ≤ v ∧ v.toInt < limit then some v.toInt.toNat else none

/-- A unary operator on a word of the given width. -/
def foldUnary (op : Op) (w : Width) (a : Int64) : Option Constant :=
  match op with
  | .neg => some (.atWidth (-a) w)
  | .bnot => some (.atWidth (~~~a) w)
  | .lnot => some (.ofBool (a == 0))
  | .lsb => some (.atWidth (a &&& 0xff) w)
  | .lsh => some (.atWidth (a &&& 0xffff) w)
  | _ => none

/-- A word of the given width, shifted right with zeros coming in. -/
def shiftRightLogical (w : Width) (a : Int64) (s : Nat) : Int64 :=
  match w with
  | .w32 => (a.toUInt64.toUInt32.toUInt64 >>> UInt64.ofNat s).toInt64
  | .w64 => (a.toUInt64 >>> UInt64.ofNat s).toInt64

/-- A binary operator on words of the given width. -/
def foldBinary (op : Op) (w : Width) (a b : Int64) : Option Constant :=
  match op with
  | .plus => some (.atWidth (a + b) w)
  | .minus => some (.atWidth (a - b) w)
  | .mult => some (.atWidth (a * b) w)
  | .div => if b == 0 then none else some (.atWidth (a / b) w)
  | .mod => if b == 0 then none else some (.atWidth (a % b) w)
  | .band => some (.atWidth (a &&& b) w)
  | .bor => some (.atWidth (a ||| b) w)
  | .bxor => some (.atWidth (a ^^^ b) w)
  | .shiftLt | .lsl => do
    let s ← position? b w.bits
    return .atWidth (a <<< Int64.ofNat s) w
  | .shiftRt | .asr => do
    let s ← position? b w.bits
    return .atWidth (a >>> Int64.ofNat s) w
  | .lsr => do
    let s ← position? b w.bits
    return .atWidth (shiftRightLogical w a s) w
  | .xbyte => do
    let n ← position? a (w.bits / 8)
    return .atWidth ((b >>> Int64.ofNat (8 * n)) &&& 0xff) w
  | .eq => some (.ofBool (a == b))
  | .ne => some (.ofBool (a != b))
  | .lt => some (.ofBool (decide (a < b)))
  | .le => some (.ofBool (decide (a ≤ b)))
  | .gt => some (.ofBool (decide (a > b)))
  | .ge => some (.ofBool (decide (a ≥ b)))
  | .land => some (.ofBool (a != 0 && b != 0))
  | .lor => some (.ofBool (a != 0 || b != 0))
  | .range | .neg | .bnot | .lnot | .lsb | .lsh => none

def foldOp (op : Op) (args : List Constant) : Option Constant :=
  let w := joinWidths (args.map Constant.width)
  match op.isUnary, args with
  | true, [a] => foldUnary op w (w.normalize a.value)
  | false, [a, b] => foldBinary op w (w.normalize a.value) (w.normalize b.value)
  | _, _ => none

mutual

/-- The value of an expression without variables, in machine words. A constant that stands alone is
its own value. -/
def Expr.fold : Expr → Option Constant
  | .const c => some c
  | .var _ => none
  | .apply op args => do foldOp op (← Expr.foldAll args)

/-- The values of a list of expressions, if all have one. -/
def Expr.foldAll : List Expr → Option (List Constant)
  | [] => some []
  | a :: rest => do return (← a.fold) :: (← Expr.foldAll rest)

end

/-- An integer cut to a width, as a signed number. -/
def reduce (v : Int) (w : Width) : Int :=
  v.bmod w.modulus

/-- The unsigned reading of an integer cut to a width. -/
def unsigned (v : Int) (w : Width) : Int :=
  v % w.modulus

/-- What a shift by so many places multiplies by, or divides by. -/
def powerOfTwo (places : Int) : Int :=
  Nat.pow 2 places.toNat

/-- A bitwise operation on integers, carried out on the bits of the given width. -/
def bitwise (f : {n : Nat} → BitVec n → BitVec n → BitVec n) (w : Width) (a b : Int) : Int :=
  (f (BitVec.ofInt w.bits a) (BitVec.ofInt w.bits b)).toInt

/-- An operator on integers of a given width, before the result is cut; the width is that of the
result. -/
def evaluateOp (op : Op) (w : Width) (args : List Int) : Option (Int × Width) :=
  let truth (b : Bool) : Option (Int × Width) := some (if b then 1 else 0, .w32)
  let word (v : Int) : Option (Int × Width) := some (v, w)
  match op, args with
  | .neg, [a] => word (-a)
  | .bnot, [a] => word (-a - 1)
  | .lnot, [a] => truth (a == 0)
  | .lsb, [a] => word (unsigned a w % 256)
  | .lsh, [a] => word (unsigned a w % 65536)
  | .plus, [a, b] => word (a + b)
  | .minus, [a, b] => word (a - b)
  | .mult, [a, b] => word (a * b)
  | .div, [a, b] => if b = 0 then none else word (a.tdiv b)
  | .mod, [a, b] => if b = 0 then none else word (a.tmod b)
  | .band, [a, b] => word (bitwise (· &&& ·) w a b)
  | .bor, [a, b] => word (bitwise (· ||| ·) w a b)
  | .bxor, [a, b] => word (bitwise (· ^^^ ·) w a b)
  | .shiftLt, [a, b] | .lsl, [a, b] =>
    if 0 ≤ b ∧ b < w.bits then word (a * powerOfTwo b) else none
  | .shiftRt, [a, b] | .asr, [a, b] =>
    if 0 ≤ b ∧ b < w.bits then word (a / powerOfTwo b) else none
  | .lsr, [a, b] => if 0 ≤ b ∧ b < w.bits then word (unsigned a w / powerOfTwo b) else none
  | .xbyte, [n, v] =>
    if 0 ≤ n ∧ n < w.bits / 8 then word (unsigned v w / powerOfTwo (8 * n) % 256) else none
  | .eq, [a, b] => truth (a == b)
  | .ne, [a, b] => truth (a != b)
  | .lt, [a, b] => truth (decide (a < b))
  | .le, [a, b] => truth (decide (a ≤ b))
  | .gt, [a, b] => truth (decide (a > b))
  | .ge, [a, b] => truth (decide (a ≥ b))
  | .land, [a, b] => truth (a != 0 && b != 0)
  | .lor, [a, b] => truth (a != 0 || b != 0)
  | _, _ => none

mutual

/-- The value of an expression without variables, over the integers, with its width. -/
def Expr.evaluateExact : Expr → Option (Int × Width)
  | .const c => some (reduce c.value.toInt c.width, c.width)
  | .var _ => none
  | .apply op args => do
    let values ← Expr.evaluateAll args
    let w := joinWidths (values.map (·.2))
    let (v, w') ← evaluateOp op w (values.map fun (v, _) => reduce v w)
    return (reduce v w', w')

/-- The values of a list of expressions, if all have one. -/
def Expr.evaluateAll : List Expr → Option (List (Int × Width))
  | [] => some []
  | a :: rest => do return (← a.evaluateExact) :: (← Expr.evaluateAll rest)

end

/-- The value of an expression without variables, over the integers. -/
def Expr.evaluate (x : Expr) : Option Constant :=
  x.evaluateExact.map fun (v, w) => .atWidth (Int64.ofInt v) w

end FactLift.Sym
