import FactLift.Lift.High

/-! Low-level lifting: registers and memory as they are, without types.

Expressions are taken as written. Only the operators that C has no counterpart for are written out
as in the high-level code. -/

namespace FactLift

open C

namespace LiftM

/-- The address at a distance from a pointer. Without a known distance a placeholder is added to
it. -/
def lowerAddress (name : String) (p : Expr) (distance : Option Int64) : LiftM Expr :=
  match distance with
  | some 0 => return p
  | some c => return .binary .plus p (.int c .int)
  | none => do
    let u ← unresolvedExpr .unsupportedOffset s!"non-constant offset of {name}"
    return .binary .plus p u

/-- The variable at a global address, made up if there is none at the very address. -/
def lowerGlobal (a : UInt64) : LiftM Symbol :=
  globalVariable fun g =>
    match g.at? a with
    | some s => (s, g)
    | none => g.addVariable (Globals.unknownVariable a)

/-- A placeholder for a location that is not known. The high-level form of the same variable is
what gets reported. -/
def lowerUnknown (name : String) : Lval :=
  .mem (.unresolved s!"location of {name}") .none

mutual

/-- The low-level form of an expression. -/
def lowerExpr : Sym.Expr → LiftM Expr
  | .const c => return .int c.value .int
  | .var v => lowerVariable v
  | .apply op args => do
    match op with
    | .xbyte | .lsb | .lsh | .range => liftSettled (Sym.Expr.apply op args).settle
    | _ => combined op (← lowerExprs args)

/-- The low-level forms of expressions. -/
def lowerExprs : List Sym.Expr → LiftM (List Expr)
  | [] => return []
  | x :: rest => do
    let e ← lowerExpr x
    return e :: (← lowerExprs rest)

/-- The low-level form of a use of a variable. -/
def lowerVariable : Sym.Variable → LiftM Expr
  | ⟨name, number, meaning⟩ =>
    match lowerFixed? meaning with
    | some value => value
    | none => return .lval (← lowerPlace name number meaning)

/-- The low-level form of a fixed value, if a variable denotes one. -/
def lowerFixed? : Sym.Meaning → Option (LiftM Expr)
  | .fixed (.initialRegister r _) =>
    some do return .ofSymbol (← namedVariable (r ++ "_in") ("initial value of " ++ r))
  | .fixed (.initialMemory ⟨name, number, meaning⟩) =>
    some do return .lval (← lowerPlace name number meaning)
  | .fixed (.returnValue callSite _) =>
    some do
      return .ofSymbol
        (← namedVariable ("rtn_" ++ Text.hexDigits callSite.toNat) "return value")
  | .fixed (.symbolic _ x) => some (lowerExpr x)
  | _ => none

/-- The low-level form of a variable as a location, by its name, number and meaning. -/
def lowerPlace (name : String) (number : Int64) (meaning : Sym.Meaning) : LiftM Lval := do
  if number == -1 then return .var (← temporaryVariable name) .none
  else
    match meaning with
    | .register r => return .var (← registerVariable r) .none
    | .flag f => return .var (← flagVariable f) .none
    | .memory (.pointer v) _ offset =>
      let p ← lowerVariable v
      return .mem (← lowerAddress name p offset.constant?) .none
    | .memory .globals _ offset =>
      match offset.constant? with
      | some a => return .var (← lowerGlobal a.toUInt64) .none
      | none => return lowerUnknown name
    | .memory .localFrame _ offset =>
      match offset.constant? with
      | some a => return .var (← slotVariable a) .none
      | none => return lowerUnknown name
    | .memory _ _ _ => return lowerUnknown name
    | .fixed _ | .absent => placed (.error s!"{name} is not a location")

end

/-- The low-level form of a location. -/
def lowerLval (v : Sym.Variable) : LiftM Lval :=
  lowerPlace v.name v.number v.meaning

end LiftM

end FactLift
