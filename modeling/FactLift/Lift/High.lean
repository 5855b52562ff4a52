import FactLift.Lift.Operator
import FactLift.Lift.Session
import FactLift.Sym.Simplify
import FactLift.Symbols.Navigate

/-! High-level lifting: from symbolic values to typed C.

Expressions are simplified before they are lifted, those inside variables included. Registers are
read through the variable of their only definition where that is known; memory is reached through
the types at hand. -/

namespace FactLift

open C LiftM

namespace LiftM

/-- The variable that a use of a register reads: that of its only reaching definition, or the
register itself. -/
def registerUse (register : String) : LiftM Symbol := do
  let site ← read
  let locals ← locals
  let defined : Option Symbol := do
    guard site.config.resolveUses
    let f ← site.reaching.find? fun f => f.var.register? == some register
    match f.addresses with
    | [a] => locals.ssa? register a
    | _ => none
  match defined with
  | some v => return v
  | none => registerVariable register

def followed (host : Ty) (bytes : Int64) : LiftM Path := do
  attempt ((← globals).navigation host bytes) (.stuck "no path")

/-- Follows a byte offset into a type, then goes on from where it lands. -/
def along (host : Ty) (bytes : Int64) (rest : Ty → LiftM Offset) : LiftM Offset := do
  let path ← followed host bytes
  match path.landing with
  | .ok t => return path.wrap (← rest t)
  | .error reason => return path.wrap (← unresolvedOffset reason)

/-- The variable whose storage contains an address, and how far into it the address lies. -/
def sought (a : UInt64) : LiftM (Option (Symbol × Int64)) := do
  let g ← globals
  attempt (g.search a) (g.containing? a)

/-- The size of a type, if there is one and its size is known. -/
def measured (t : Option Ty) : LiftM (Option Nat) := do
  attempt (t.elim (.ok none) (← globals).sizing) none

/-- An expression moved by a constant. -/
def moved (op : BinOp) (p : Expr) (c : Int64) : LiftM Expr := do
  attempt (movement (← read).config (← globals) op p c) (.binary op p (.int c .int))

/-- A global address: the address of the variable that contains it, or the plain number. -/
def liftAddress (a : UInt64) : LiftM Expr := do
  match ← sought a with
  | none => return .int a.toInt64 .uint
  | some (s, distance) =>
    let offset ←
      if distance = 0 then pure .none
      else
        match s.type with
        | some t => along t distance fun _ => pure .none
        | none => unresolvedOffset "offset into a global without a type"
    return .globalAddress a.toInt64 (.addressOf (.var s offset))

def liftConstant (c : Sym.Constant) : LiftM Expr :=
  match c with
  | .int v .w32 => return .int v .int
  | .int v .w64 => return .int v .longLong
  | .address a => liftAddress a

/-- The value of a register at entry: a parameter, or a variable of its own. -/
def liftInitialRegister (register : String) : LiftM Expr := do
  if Target.isStackPointer register then slotAddress 0
  else
    match (← locals).formalAt? (.register register) with
    | some formal => return .ofSymbol formal
    | none =>
      return .ofSymbol (← namedVariable (register ++ "_in") ("initial value of " ++ register))

/-- The value that a call returned: the variable defined at its site, or one of its own. More than
one definition at the site leaves it open. -/
def liftReturnValue (name : String) (callSite : UInt64) (callee : Option String) :
    LiftM Expr := do
  match (← locals).ssaAt callSite with
  | [s] => return .ofSymbol s
  | [] =>
    let description := match callee with
      | some f => "return value of " ++ f
      | none => "return value"
    return .ofSymbol (← namedVariable ("rtn_" ++ Text.hexDigits callSite.toNat) description)
  | many =>
    unresolvedExpr .ambiguousSsa
      s!"{name}: {many.length} SSA variables at call site {Text.hex callSite.toNat}"

/-- The parameter whose value at entry a variable in memory is. -/
def stackFormal? (v : Sym.Variable) : LiftM (Option Symbol) := do
  match v.stackOffset? with
  | some offset => if offset < 0 then return none else return (← locals).formalAt? (.stack offset)
  | none => return none

/-- The type that a field leads to, as far as it is known. -/
def fieldType? (g : Globals) (name : String) (key : Nat) : Option Ty := do
  let c ← g.composite? key
  let f ← c.field? name
  return f.type

/-- The variable that an access to a global address goes to, and how far into it; one is made up if
there is none. -/
def globalAt (a : UInt64) : LiftM (Symbol × Int64) := do
  match ← sought a with
  | some found => return found
  | none => return (← globalVariable (·.addVariable (Globals.unknownVariable a)), 0)

/-- An lvalue, or a dereferenced placeholder for the reason why there is none. -/
def placed (place : Except String Lval) : LiftM Lval := do
  match place with
  | .ok l => return l
  | .error reason => return .mem (← unresolvedExpr .unresolvedValue reason) .none

/-- An operator and its lifted operands. -/
def combined (op : Sym.Op) (args : List Expr) : LiftM Expr :=
  match combine? op args with
  | some e => return e
  | none =>
    unresolvedExpr .unresolvedValue s!"no operator for {op.name} with {args.length} operands"

/-- The target of a pointer, as far as it is known. -/
def targetType? (g : Globals) (p : Expr) : Option Ty :=
  ((p.typeOf g).map g.resolve).bind Ty.target?

mutual

/-- Lifts an expression that is simplified, as are those inside its variables. -/
def liftSettled : Sym.Expr → LiftM Expr
  | .const c => liftConstant c
  | .var v => liftVariable v
  | .apply op args => do
    match (Sym.Expr.apply op args).stackOffset? with
    | some offset => slotAddress offset
    | none =>
      match op.isUnary, args with
      | true, [a] =>
        let e ← liftSettled a
        match op with
        | .lsb => return .binary .band e (.int 0xff .int)
        | .lsh => return .binary .band e (.int 0xffff .int)
        | _ => combined op [e]
      | false, [a, b] =>
        match op with
        | .plus =>
          let p ← liftSettled a
          match b.int? with
          | some c => moved .plus p c
          | none => combined op [p, ← liftSettled b]
        | .minus =>
          let p ← liftSettled a
          match b.int? with
          | some c => moved .minus p c
          | none => combined op [p, ← liftSettled b]
        | .lsr =>
          let e ← liftSettled a
          let s ← liftSettled b
          return shiftRight (← globals) false e s
        | .asr =>
          let e ← liftSettled a
          let s ← liftSettled b
          return shiftRight (← globals) true e s
        | .xbyte =>
          match a.int? with
          | none => unresolvedExpr .unresolvedValue "xbyte of a variable byte"
          | some n =>
            match timesEight? n with
            | none => unresolvedExpr .unresolvedValue "xbyte index out of range"
            | some bits => return byteAt (← liftSettled b) bits
        | .range => unresolvedExpr .unresolvedValue "range expression"
        | _ =>
          let e ← liftSettled a
          combined op [e, ← liftSettled b]
      | _, _ => unresolvedExpr .unresolvedValue s!"{op.name} with {args.length} operands"

/-- Lifts a use of a variable. -/
def liftVariable : Sym.Variable → LiftM Expr
  | ⟨name, number, meaning⟩ => do
    if number == -1 then return .ofSymbol (← temporaryVariable name)
    else
      match meaning with
      | .register r => return .ofSymbol (← registerUse r)
      | .flag f => return .ofSymbol (← flagVariable f)
      | .memory base size offset =>
        return .lval (← placed (← liftPlace name (.memory base size offset)))
      | .fixed value => liftFixed name value
      | .absent => unresolvedExpr .unresolvedValue s!"variable {name} has no denotation"

def liftFixed (name : String) : Sym.FixedValue → LiftM Expr
  | .initialRegister r _ => liftInitialRegister r
  | .initialMemory v => do
    match ← stackFormal? v with
    | some formal => return .ofSymbol formal
    | none => return .lval (← placed (← liftLvalue v))
  | .returnValue callSite callee => liftReturnValue name callSite callee
  | .symbolic _ x => liftSettled x

/-- Lifts a variable to an lvalue, unless it is no location or its location is not known. -/
def liftLvalue : Sym.Variable → LiftM (Except String Lval)
  | ⟨name, number, meaning⟩ => do
    if number == -1 then return .ok (.var (← temporaryVariable name) .none)
    else liftPlace name meaning

/-- Lifts what a variable denotes to an lvalue, unless it is no location or the location is not
known. -/
def liftPlace (name : String) : Sym.Meaning → LiftM (Except String Lval)
  | .register r => return .ok (.var (← registerVariable r) .none)
  | .flag f => return .ok (.var (← flagVariable f) .none)
  | .memory .localFrame _ .none => return .ok (.var (← slotVariable 0) .none)
  | .memory .localFrame _ (.const v sub) => do
    let s ← slotVariable v
    return .ok (.var s (← liftOffset sub s.type))
  | .memory .localFrame _ _ => return .error s!"stack variable {name} with a variable offset"
  | .memory .allocatedFrame _ _ | .memory .realignedFrame _ _ =>
    return .error s!"{name}: memory in an allocated or realigned frame"
  | .memory .globals _ (.const v sub) => do
    let (s, distance) ← globalAt v.toUInt64
    let offset ← match s.type with
      | some t => along t distance fun landing => liftOffset sub (some landing)
      | none =>
        if distance = 0 then liftOffset sub none
        else unresolvedOffset "offset into a global without a type"
    return .ok (.var s offset)
  | .memory .globals _ _ => return .error s!"global {name} without an address"
  | .memory (.pointer v) _ offset => do
    let p ← liftVariable v
    return .ok (← liftDeref p offset)
  | .memory (.unknown description) _ _ => return .error s!"unknown memory base {description}"
  | .fixed _ | .absent => return .error s!"{name} is not a location"

def liftDeref (p : Expr) : Sym.Offset → LiftM Lval
  | .none => return .mem p .none
  | .unknown => return .mem p (← unresolvedOffset "unknown offset")
  | .field name key sub => do
    let offset ← liftOffset sub (fieldType? (← globals) name key)
    return .mem p (.field name key offset)
  | .const v sub => do
    let target := targetType? (← globals) p
    let recover := (← read).config.recoverFields
    match target.filter fun t => t.key?.isSome && recover with
    | some t => return .mem p (← along t v fun landing => liftOffset sub (some landing))
    | none =>
      if v = 0 then return .mem p (← liftOffset sub target)
      else return .mem (.binary .plus p (.int v .int)) (← liftOffset sub none)
  | .index i sub => do
    let target := targetType? (← globals) p
    let i ← liftSettled i
    return .mem (.binary .plus p i) (← liftOffset sub target)
  | .indexVar v elementSize sub => do
    let g ← globals
    let target := targetType? g p
    let i ← liftVariable v
    let size ← measured target
    let scaled : Expr :=
      if size = some elementSize then i
      else .binary .mult i (.int (Int64.ofNat elementSize) .int)
    return .mem (.binary .plus p scaled) (← liftOffset sub target)

/-- Lifts an offset into memory, of a type if that is known. -/
def liftOffset : Sym.Offset → Option Ty → LiftM Offset
  | .none, _ => return .none
  | .const v sub, some host => do
    along ((← globals).resolve host) v fun landing => liftOffset sub (some landing)
  | .const v sub, none =>
    if v = 0 then liftOffset sub none
    else unresolvedOffset s!"constant offset {v.toInt} into untyped memory"
  | .field name key sub, _ => do
    return .field name key (← liftOffset sub (fieldType? (← globals) name key))
  | .index i sub, host => do
    let i ← liftSettled i
    let g ← globals
    return .index i (← liftOffset sub ((host.map g.resolve).bind Ty.element?))
  | .indexVar v elementSize sub, host => do
    let g ← globals
    let element := (host.map g.resolve).bind Ty.element?
    let size ← measured element
    match size.filter (· ≠ elementSize) with
    | some size =>
      unresolvedOffset s!"index scaled by {elementSize} into elements of size {size}"
    | none =>
      let i ← liftVariable v
      return .index i (← liftOffset sub element)
  | .unknown, _ => unresolvedOffset "unknown offset"

end

def liftExpr (x : Sym.Expr) : LiftM Expr :=
  liftSettled x.settle.simplify

/-- Lifts a variable to an lvalue. A hint is an expression for its address, for when its location is
not known. -/
def liftLval (v : Sym.Variable) (hint : Option Sym.Expr) : LiftM Lval := do
  match ← liftLvalue v.settle, hint with
  | .error reason, some address =>
    note ⟨.debug, "Lifting through address hint",
      [("site", Text.hex (← read).address.toNat), ("reason", reason)]⟩
    return .mem (← liftExpr address) .none
  | place, _ => placed place

/-- Lifts an offset into memory, of a type if that is known. -/
def liftMemoryOffset (o : Sym.Offset) (host : Option Ty) : LiftM Offset :=
  liftOffset o.settle host

/-- Lifts the target of a definition. A register gets the variable of its definition here. -/
def liftDefinition (v : Sym.Variable) (t : Option Ty) (hint : Option Sym.Expr) : LiftM Lval := do
  let site ← read
  match v.register? with
  | some r =>
    if site.config.introduceSsa && !Target.isStackPointer r then
      return .var (← ssaVariable r site.address t).1 .none
    else liftLval v hint
  | none => liftLval v hint

end LiftM

end FactLift
