import FactLift.Symbols.Globals

/-! The static types of expressions and lvalues, as far as they are known. -/

namespace FactLift.C

/-- The type that an offset leads to inside a type. -/
def Offset.typeWithin (g : Globals) : Offset → Ty → Option Ty
  | .none, t => some t
  | .field name key sub, _ => do
    let c ← g.composite? key
    let f ← c.field? name
    sub.typeWithin g f.type
  | .index _ sub, t => do sub.typeWithin g (← t.element?)
  | .unresolved _, _ => Option.none

/-- The type of a difference: two pointers are an integer apart, all else keeps the type of the left
side. -/
def differenceType (a b : Option Ty) : Option Ty :=
  match a, b with
  | some (.pointer _), some (.pointer _) => some (.int .int)
  | _, _ => a

mutual

def Expr.typeOf (g : Globals) : Expr → Option Ty
  | .int _ k => some (.int k)
  | .float _ k => some (.float k)
  | .globalAddress _ e => e.typeOf g
  | .string _ _ => some (.pointer (.int .char))
  | .lval l => l.typeOf g
  | .sizeOf _ => some (.int .uint)
  | .cast t _ => some t
  | .unary .lnot _ => some (.int .int)
  | .unary _ e => e.typeOf g
  | .binary op a b =>
    if op.isTruth then some (.int .int)
    else if op = .minus then differenceType (a.typeOf g) (b.typeOf g)
    else (a.typeOf g).or (b.typeOf g)
  | .conditional _ a b => (a.typeOf g).or (b.typeOf g)
  | .addressOf l => (l.typeOf g).map .pointer
  | .unresolved _ => none

def Lval.typeOf (g : Globals) : Lval → Option Ty
  | .var s offset => do offset.typeWithin g (← s.type)
  | .mem e offset => do offset.typeWithin g (← (← e.typeOf g).target?)

end

end FactLift.C
