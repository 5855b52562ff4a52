import FactLift.C.TypeOf
import FactLift.Config
import FactLift.Sym.Op
import FactLift.Symbols.Navigate

/-! C operators for symbolic ones, and pointer arithmetic. -/

namespace FactLift

open C

/-- The C operator with one operand, where there is a direct counterpart. -/
def Sym.Op.unOp? : Sym.Op → Option UnOp
  | .bnot => some .bnot
  | .lnot => some .lnot
  | .neg => some .neg
  | _ => none

/-- The C operator with two operands, where there is a direct counterpart. -/
def Sym.Op.binOp? : Sym.Op → Option BinOp
  | .plus => some .plus
  | .minus => some .minus
  | .mult => some .mult
  | .div => some .div
  | .mod => some .mod
  | .band => some .band
  | .bor => some .bor
  | .bxor => some .bxor
  | .eq => some .eq
  | .ne => some .ne
  | .lt => some .lt
  | .le => some .le
  | .gt => some .gt
  | .ge => some .ge
  | .land => some .land
  | .lor => some .lor
  | .shiftLt | .lsl => some .shiftLt
  | .shiftRt | .lsr | .asr => some .shiftRt
  | _ => none

/-- A C expression for an operator and its operands, where there is a direct counterpart. -/
def combine? (op : Sym.Op) (args : List Expr) : Option Expr :=
  match args with
  | [a] => op.unOp?.map fun o => .unary o a
  | [a, b] => op.binOp?.map fun o => .binary o a b
  | _ => none

/-- A right shift that brings in copies of the sign, or zeros: the operand is cast to the integer
type of its size with or without a sign. -/
def shiftRight (g : Globals) (signed : Bool) (a b : Expr) : Expr :=
  let kind := match a.typeOf g with
    | some (.int k) => k
    | _ => .int
  .binary .shiftRt (.cast (.int (kind.withSign signed)) a) b

/-- One byte of an expression, given how far to the right it is to be moved. -/
def byteAt (e : Expr) (bits : Int64) : Expr :=
  .binary .band (.binary .shiftRt e (.int bits .int)) (.int 0xff .int)

/-- Eight times a word, if that is a word. -/
def timesEight? (n : Int64) : Option Int64 :=
  let product := 8 * n.toInt
  if Int64.minValue.toInt ≤ product ∧ product ≤ Int64.maxValue.toInt then
    some (Int64.ofInt product)
  else none

/-- The field that starts at a number of bytes into the target of a pointer. -/
def fieldStart? (g : Globals) (target : Ty) (bytes : Int64) : Option (String × Nat) := do
  let key ← target.key?
  let c ← g.composite? key
  let (f, rest) ← c.fieldAt? bytes
  if rest = 0 then some (f.name, key) else none

/-- A pointer moved by bytes: the address of a field if one starts there, else arithmetic in units
of the target, or on bytes where the target does not divide the distance. The distance is divided by
the size of the target as a signed word. -/
def movePointer (cfg : Config) (g : Globals) (op : BinOp) (p : Expr) (target : Ty) (c : Int64) :
    Except Fault Expr :=
  let bytes := if op = .minus then -c else c
  match if cfg.recoverFields then fieldStart? g target bytes else none with
  | some (name, key) => return .addressOf (.mem p (.field name key .none))
  | none => do
    match (← g.sizing target).filter (0 < ·) with
    | none => return .binary op p (.int c .int)
    | some size =>
      let unit := Int64.ofNat size
      if cfg.scalePointers ∧ overflows c unit then .error .quotient
      else if cfg.scalePointers ∧ c % unit = 0 then return .binary op p (.int (c / unit) .int)
      else if size = 1 then return .binary op p (.int c .int)
      else return .binary op (.cast (.pointer (.int .uchar)) p) (.int c .int)

/-- Moves an expression by a constant: pointer arithmetic if it is known to be a pointer. -/
def movement (cfg : Config) (g : Globals) (op : BinOp) (p : Expr) (c : Int64) :
    Except Fault Expr :=
  match (p.typeOf g).map g.resolve with
  | some (.pointer t) => movePointer cfg g op p (g.resolve t) c
  | _ => return .binary op p (.int c .int)

/-- An expression moved by a constant; where moving it ends in a fault, the constant is added. -/
def moveBy (cfg : Config) (g : Globals) (op : BinOp) (p : Expr) (c : Int64) : Expr :=
  (movement cfg g op p c).toOption.getD (.binary op p (.int c .int))

end FactLift
