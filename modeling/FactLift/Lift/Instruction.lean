import FactLift.C.TypeOf
import FactLift.Lift.Low

/-! Lifting the parts of one instruction.

Every value and every target is lifted to both forms, and the two are linked in the provenance
together with the dataflow facts that belong to them. The low-level form comes first, so its number
is the lower one. -/

namespace FactLift

open C

/-- A tree in its low-level and its high-level form. -/
structure Forms (α : Type) where
  low : α
  high : α

/-- Applies a function to both forms. -/
def Forms.map {α β : Type} (f : α → β) (x : Forms α) : Forms β where
  low := f x.low
  high := f x.high

namespace LiftM

/-- Records something about both forms. -/
def recordBoth {α : Type} (x : Forms α) (f : Provenance → α → Provenance) : LiftM Unit :=
  record fun p => f (f p x.low) x.high

/-- Numbers the two forms of an expression and links them. -/
def linkExprs (low high : Expr) : LiftM (Forms (Tracked Expr)) := do
  let low ← trackExpr low
  let high ← trackExpr high
  let site := (← read).address
  recordMapping fun p => p.mapExpr low high (some site)
  return { low, high }

/-- Numbers the two forms of an lvalue and links them. -/
def linkLvals (low high : Lval) : LiftM (Forms (Tracked Lval)) := do
  let low ← trackLval low
  let high ← trackLval high
  let site := (← read).address
  recordMapping fun p => p.mapLval low high (some site)
  return { low, high }

/-- Numbers the two forms of an instruction, links them and records their address. -/
def linkInstrs (actions : Forms Action) : LiftM (Forms Instr) := do
  let low ← trackInstr actions.low
  let high ← trackInstr actions.high
  let site := (← read).address
  recordMapping fun p => p.mapInstr low high (some site)
  recordBoth { low, high } fun p i => p.addAddresses i [site]
  return { low, high }

/-- Records how many bytes an instruction has. -/
def recordSpan (instr : Forms Instr) (size : Nat) : LiftM Unit := do
  let site := (← read).address
  recordBoth instr fun p i => p.addSpan i ⟨site, size⟩

/-- Both forms of a value, with the definitions that reach it. -/
def liftValue (low high : Sym.Expr) (reaching : List Flow) : LiftM (Forms (Tracked Expr)) := do
  let l ← lowerExpr low
  let h ← liftExpr high
  let forms ← linkExprs l h
  recordBoth forms fun p e => p.addReachingDefs e reaching
  return forms

/-- Both forms of the target of a definition, with the next facts about its uses. -/
def liftTarget (v : Sym.Variable) (t : Option Ty) (hint : Option Sym.Expr) :
    LiftM (Forms (Tracked Lval)) := do
  let l ← lowerLval v
  let h ← liftDefinition v t hint
  let forms ← linkLvals l h
  let use ← takeDefUse
  let useHigh ← takeDefUseHigh
  recordBoth forms fun p l => p.addDefUse l use
  record fun p => p.addDefUseHigh forms.high useHigh
  match h with
  | .mem _ _ => record fun p => p.addStore forms.high
  | .var _ _ => pure ()
  return forms

/-- A constant as a variable of a type holds it: cut to the type's size if that is less than a
word. -/
def heldBy (t : Option Ty) (c : Int64) : Int64 :=
  match t with
  | some (.int k) => if k.size < 8 then widen c (8 * k.size) k.isSigned else c
  | _ => c

/-- Keeps the value of a definition if it is a constant. -/
def recordConstant (target : Sym.Variable) (value : Sym.Expr) : LiftM Unit := do
  let site ← read
  let locals ← locals
  if site.config.recordConstants then
    match target.register?.bind (locals.ssa? · site.address), value.simplify.fold with
    | some s, some c =>
      let held := heldBy s.type c.value
      note ⟨.trace, "Recorded SSA constant",
        [("var", s.name), ("value", toString held.toInt)]⟩
      modify fun st => { st with locals := st.locals.setConstant s.name (.int held .int) }
    | _, _ => pure ()

/-- An assignment. The low-level value is the operand as written, the high-level one what is known
about it. -/
def liftAssign (target : Sym.Variable) (low high : Sym.Expr) (hint : Option Sym.Expr) :
    LiftM (Forms Instr) := do
  let value ← liftValue low high (← takeReachingDefs)
  let t := value.high.tree.typeOf (← globals)
  let place ← liftTarget target t hint
  recordConstant target high
  linkInstrs ⟨.assign place.low value.low, .assign place.high value.high⟩

/-- The function with a name; one that is not known is made up. -/
def functionNamed (name : String) : LiftM Expr := do
  match (← locals).symbol? name with
  | some s => return .ofSymbol s
  | none => return .ofSymbol (← globalVariable (·.addVariable (Globals.unknownFunction name)))

/-- Both forms of the function that is called: by name if that is known, else by its address. -/
def liftCallee (name : Option String) (address : Option Sym.Expr) : LiftM (Forms Expr) := do
  match name, address with
  | some name, _ =>
    let f ← functionNamed name
    return ⟨f, f⟩
  | none, some x =>
    let low ← lowerExpr x
    return ⟨low, ← liftExpr x⟩
  | none, none =>
    let u ← unresolvedExpr .unresolvedValue "call without target"
    return ⟨u, u⟩

/-- Both forms of the arguments of a call. Each takes the next reaching definition. -/
def liftArguments : List Sym.Expr → LiftM (List (Forms (Tracked Expr)))
  | [] => return []
  | x :: rest => do
    let reaching ← takeReachingDef
    let e ← liftValue x x reaching.toList
    return e :: (← liftArguments rest)

/-- A call, of a function by name or by address, and where its value goes. -/
def liftCall (target : Option Sym.Variable) (name : Option String) (address : Option Sym.Expr)
    (args : List Sym.Expr) : LiftM (Forms Instr) := do
  let callee ← liftCallee name address
  let args ← liftArguments args
  let place ← target.mapM fun v => liftTarget v none none
  linkInstrs
    ⟨.call (place.map (·.low)) callee.low (args.map (·.low)),
      .call (place.map (·.high)) callee.high (args.map (·.high))⟩

/-- A return, of a value if there is one. -/
def liftReturn (value : Option (Forms Sym.Expr)) : LiftM (Forms Stmt) := do
  let value ← value.mapM fun x => do liftValue x.low x.high (← takeReachingDefs)
  return ⟨.ofBody (.return (value.map (·.low))), .ofBody (.return (value.map (·.high)))⟩

/-- The condition of a branch, with the definitions of flags that reach it. -/
def liftCondition (low high : Sym.Expr) : LiftM (Forms (Tracked Expr)) := do
  let l ← lowerExpr low
  let h ← liftExpr high
  let forms ← linkExprs l h
  let reaching ← takeFlagReachingDefs
  let site := (← read).address
  recordBoth forms fun p e => p.addFlagReachingDefs e reaching
  recordBoth forms fun p e => p.addConditionAddresses e [site]
  return forms

/-- An instruction that does nothing, with a text that says what was dropped. -/
def liftNop (text : String) : LiftM (Forms Instr) :=
  linkInstrs ⟨.nop text, .nop text⟩

end LiftM

end FactLift
