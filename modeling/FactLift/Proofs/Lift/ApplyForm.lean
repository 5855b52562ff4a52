import FactLift.Lift.High

/-! What lifting an operator does.

`ApplyForm op args x` lists the actions that an operator on operands can be lifted by, each with the
guards it is chosen under, and `liftSettled_apply` says that there are no others. What holds of
lifted operands is carried to the operator by cases on it, one for each way to put them together. -/

namespace FactLift

open C

namespace Sym.Op

/-- The mask that keeps the low bits of a value, for the operators that do. -/
def mask? : Op → Option Int64
  | lsb => some 0xff
  | lsh => some 0xffff
  | _ => none

/-- The operators that may move a pointer by a constant. -/
def move? : Op → Option BinOp
  | plus => some .plus
  | minus => some .minus
  | _ => none

/-- Whether the sign is kept, for the operators that shift to the right. -/
def rightShift? : Op → Option Bool
  | lsr => some false
  | asr => some true
  | _ => none

/-- The binary operators whose lifted operands are put together without regard to what they are. -/
def isPlainBinary (op : Op) : Bool :=
  !op.isUnary && op.rightShift?.isNone && op != xbyte && op != range

/-- Whether there is a tree for an operator on operands: it has as many as it takes, and where it
takes a byte out of a value it is known which. -/
def hasTree (op : Op) (args : List Expr) : Bool :=
  match args with
  | [_] => op.isUnary
  | [a, _] => !op.isUnary && op != range && (op != xbyte || (a.int?.bind timesEight?).isSome)
  | _ => false

theorem hasTree_of_operands {op : Op} {args : List Expr}
    (hone : ∀ a, op.isUnary = true → args ≠ [a])
    (htwo : ∀ a b, op.isUnary = false → args ≠ [a, b]) : op.hasTree args = false := by
  match args with
  | [a] => simpa [hasTree] using fun hop => hone a hop rfl
  | [a, b] => cases hop : op.isUnary <;> simp_all [hasTree]
  | [] | _ :: _ :: _ :: _ => rfl

end Sym.Op

namespace LiftM

/-- What an operator on operands can be lifted by. -/
inductive ApplyForm : Sym.Op → List Sym.Expr → LiftM Expr → Prop
  | slot {op : Sym.Op} {args : List Sym.Expr} {offset : Int64}
      (h : (Sym.Expr.apply op args).stackOffset? = some offset) :
      ApplyForm op args (slotAddress offset)
  | masked {op : Sym.Op} {a : Sym.Expr} {mask : Int64} (hmask : op.mask? = some mask) :
      ApplyForm op [a] (do
        let e ← liftSettled a
        return .binary .band e (.int mask .int))
  | unary {op : Sym.Op} {a : Sym.Expr} (hop : op.isUnary = true) (hmask : op.mask? = none) :
      ApplyForm op [a] (do
        let e ← liftSettled a
        combined op [e])
  | moved {op : Sym.Op} {a b : Sym.Expr} {o : BinOp} {c : Int64} (ho : op.move? = some o)
      (hc : b.int? = some c) :
      ApplyForm op [a, b] (do
        let p ← liftSettled a
        moved o p c)
  | shifted {op : Sym.Op} {a b : Sym.Expr} {signed : Bool} (hshift : op.rightShift? = some signed) :
      ApplyForm op [a, b] (do
        let e ← liftSettled a
        let s ← liftSettled b
        return shiftRight (← globals) signed e s)
  | byte {a b : Sym.Expr} {n bits : Int64} (hn : a.int? = some n) (hbits : timesEight? n = some bits) :
      ApplyForm .xbyte [a, b] (do return byteAt (← liftSettled b) bits)
  | binary {op : Sym.Op} {a b : Sym.Expr} (hop : op.isPlainBinary = true)
      (hmove : op.move? = none ∨ b.int? = none) :
      ApplyForm op [a, b] (do
        let e ← liftSettled a
        combined op [e, ← liftSettled b])
  | unresolved {op : Sym.Op} {args : List Sym.Expr} (reason : String)
      (h : op.hasTree args = false) :
      ApplyForm op args (unresolvedExpr .unresolvedValue reason)

/-- An operator is lifted in one of the ways listed. -/
theorem liftSettled_apply (op : Sym.Op) (args : List Sym.Expr) :
    ApplyForm op args (liftSettled (.apply op args)) := by
  unfold liftSettled
  split
  next h => exact .slot h
  next =>
    split
    next a hop _ =>
      cases op <;> first
        | contradiction
        | exact .masked rfl
        | exact .unary rfl rfl
    next a b hop _ =>
      cases op with
      | plus | minus =>
        cases hc : b.int? with
        | none => exact .binary rfl (.inr hc)
        | some c => exact .moved rfl hc
      | lsr | asr => exact .shifted rfl
      | xbyte =>
        dsimp only
        split
        next hn => exact .unresolved _ (by simp [Sym.Op.hasTree, hn])
        next n hn =>
          split
          next hbits => exact .unresolved _ (by simp [Sym.Op.hasTree, hn, hbits])
          next bits hbits => exact .byte hn hbits
      | range => exact .unresolved _ rfl
      | bnot | lnot | neg | lsb | lsh => contradiction
      | _ => exact .binary rfl (.inl rfl)
    next hone htwo _ => exact .unresolved _ (Sym.Op.hasTree_of_operands hone htwo)

end LiftM

end FactLift
