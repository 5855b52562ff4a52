import FactLift.C.TypeOf

/-! The values of C expressions over `int`.

`Expr.intValue?` evaluates an expression in 32-bit two's complement, reading variables by name.
Addition, subtraction, multiplication, negation and left shifts wrap around, division rounds towards
zero, right shifts bring in the sign, and comparisons give zero or one. Division by zero and shifts
by less than zero or more than 31 places have no value, nor has anything that is not of type `int`.
`Expr.IsIntTyped` says that nothing but `int` is known of the type of an expression. -/

namespace FactLift.C

def truth (b : Bool) : Int32 :=
  if b then 1 else 0

def UnOp.onInt (op : UnOp) (a : Int32) : Int32 :=
  match op with
  | .neg => -a
  | .bnot => ~~~a
  | .lnot => truth (a == 0)

/-- An operator with two operands that both have a value. -/
def BinOp.onInt? (op : BinOp) (a b : Int32) : Option Int32 :=
  match op with
  | .plus => some (a + b)
  | .minus => some (a - b)
  | .mult => some (a * b)
  | .div => if b = 0 then none else some (a / b)
  | .mod => if b = 0 then none else some (a % b)
  | .shiftLt => if 0 ≤ b ∧ b < 32 then some (a <<< b) else none
  | .shiftRt => if 0 ≤ b ∧ b < 32 then some (a >>> b) else none
  | .band => some (a &&& b)
  | .bor => some (a ||| b)
  | .bxor => some (a ^^^ b)
  | .land => some (truth (a != 0 && b != 0))
  | .lor => some (truth (a != 0 || b != 0))
  | .eq => some (truth (a == b))
  | .ne => some (truth (a != b))
  | .lt => some (truth (decide (a < b)))
  | .le => some (truth (decide (a ≤ b)))
  | .gt => some (truth (decide (a > b)))
  | .ge => some (truth (decide (a ≥ b)))

/-- The value of an expression over `int`, given the values of the variables by name. The right side
of `&&` and `||` is looked at only where the left side does not decide. -/
def Expr.intValue? (σ : String → Int32) : Expr → Option Int32
  | .int v .int => some v.toInt32
  | .lval (.var s .none) => some (σ s.name)
  | .cast (.int .int) e => e.intValue? σ
  | .unary op e => (e.intValue? σ).map op.onInt
  | .binary op a b => do
    let m ← a.intValue? σ
    match op, m == 0 with
    | .land, true => some 0
    | .lor, false => some 1
    | _, _ => op.onInt? m (← b.intValue? σ)
  | .conditional c a b => do if (← c.intValue? σ) ≠ 0 then a.intValue? σ else b.intValue? σ
  | _ => none

/-- Where both sides have a value it does not matter which are looked at. -/
theorem intValue?_binary {σ : String → Int32} {op : BinOp} {a b : Expr} {m n : Int32}
    (ha : a.intValue? σ = some m) (hb : b.intValue? σ = some n) :
    (Expr.binary op a b).intValue? σ = op.onInt? m n := by
  rw [Expr.intValue?, ha, hb]
  simp only [Option.bind_eq_bind, Option.bind_some]
  split
  · rename_i hm
    simp [BinOp.onInt?, truth, beq_iff_eq.mp hm]
  · rename_i hm
    simp [BinOp.onInt?, truth, show m ≠ 0 from fun h => by simp [h] at hm]
  · rfl

/-! ### Types -/

/-- The expression is of type `int`, as far as its type is known. -/
def Expr.IsIntTyped (e : Expr) : Prop :=
  ∀ g, e.typeOf g = none ∨ e.typeOf g = some (.int .int)

theorem isIntTyped_int (v : Int64) : (Expr.int v .int).IsIntTyped := fun g => by
  rw [Expr.typeOf]
  exact .inr rfl

theorem Expr.IsIntTyped.unary {e : Expr} (h : e.IsIntTyped) (op : UnOp) :
    (Expr.unary op e).IsIntTyped := by
  intro g
  cases op with
  | lnot =>
    rw [Expr.typeOf]
    exact .inr rfl
  | neg | bnot => simpa [Expr.typeOf] using h g

theorem Expr.IsIntTyped.binary {a b : Expr} (ha : a.IsIntTyped) (hb : b.IsIntTyped) (op : BinOp) :
    (Expr.binary op a b).IsIntTyped := by
  intro g
  rw [Expr.typeOf]
  split
  · exact .inr rfl
  · split
    · rcases ha g with h | h
      · exact .inl (by rw [h]; rfl)
      · exact .inr (by rw [h]; rfl)
    · rcases ha g with h | h
      · rw [h, Option.none_or]
        exact hb g
      · exact .inr (by rw [h, Option.some_or])

end FactLift.C
