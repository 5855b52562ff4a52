import FactLift.Symbols.Globals

/-! The local symbols of a function.

Several tables lead to the same variable: a register, a stack slot or a definition of a register may
share a variable with a symbol of that name. The variables are therefore kept once, in the order in
which they were made, and the tables hold their numbers. A variable is never taken out, and the only
change to it is that one without a type is given one. -/

namespace FactLift

open C

/-- The number of a local variable. -/
abbrev VarId := Nat

/-- Where a parameter is when the function is entered. -/
inductive ParameterLocation
  | register (name : String)
  | stack (offset : Int64)
deriving DecidableEq, Repr

/-- The variable that holds what one instruction puts into a register. -/
structure SsaVariable where
  register : String
  site : UInt64
  var : VarId
deriving DecidableEq, Repr

/-- The symbols of one function. -/
structure Locals where
  function : String
  vars : Array Symbol := #[]
  symbols : Std.TreeMap String VarId := ∅
  formals : Array VarId := #[]
  registerFormals : Std.TreeMap String VarId := ∅
  stackFormals : Std.TreeMap Int64 VarId := ∅
  slots : Std.TreeMap Int64 VarId := ∅
  registers : Std.TreeMap String VarId := ∅
  /-- Definitions of registers, in the order in which they were asked for. -/
  ssa : Array SsaVariable := #[]
  /-- The constants that such variables hold, by name. -/
  constants : Std.TreeMap String C.Expr := ∅
  lastTemporary : Nat := 0

/-- The name of the variable that holds what the instruction at a site puts into a register. -/
def ssaName (register : String) (site : UInt64) : String :=
  register ++ "_" ++ Text.hexDigits site.toNat

def slotName (offset : Int64) : String :=
  if offset < 0 then "localvar_" ++ toString offset.toInt.natAbs
  else "stack_" ++ toString offset.toInt

def temporaryName (n : Nat) : String :=
  "tmp" ++ toString n

namespace Locals

def get (l : Locals) (v : VarId) : Symbol :=
  l.vars.getD v default

/-- Makes a variable and lets its name stand for it. -/
def insert (l : Locals) (s : Symbol) : VarId × Locals :=
  let v := l.vars.size
  (v, { l with vars := l.vars.push s, symbols := l.symbols.insert s.name v })

/-- The variable with a name, made if there is none. -/
def addSymbol (l : Locals) (s : Symbol) : VarId × Locals :=
  match l.symbols[s.name]? with
  | some v => (v, l)
  | none => l.insert s

def symbol? (l : Locals) (name : String) : Option Symbol :=
  l.symbols[name]?.map l.get

def all (l : Locals) : List Symbol :=
  l.symbols.toList.map fun (_, v) => l.get v

/-- Adds the next parameter. Its name stands for it from now on. -/
def addFormal (l : Locals) (name : String) (t : Ty) (location : ParameterLocation) :
    VarId × Locals :=
  let (v, l) := l.insert { name, type := some t, parameter := some l.formals.size }
  let l := { l with formals := l.formals.push v }
  match location with
  | .register r => (v, { l with registerFormals := l.registerFormals.insert r v })
  | .stack offset => (v, { l with stackFormals := l.stackFormals.insert offset v })

def parameters (l : Locals) : List Symbol :=
  l.formals.toList.map l.get

def formalAt? (l : Locals) (location : ParameterLocation) : Option Symbol :=
  match location with
  | .register r => l.registerFormals[r]?.map l.get
  | .stack offset => l.stackFormals[offset]?.map l.get

def register (l : Locals) (name : String) : VarId × Locals :=
  match l.registers[name]? with
  | some v => (v, l)
  | none =>
    let (v, l) := l.addSymbol { name, description := some "register" }
    (v, { l with registers := l.registers.insert name v })

def flag (l : Locals) (name : String) : VarId × Locals :=
  l.addSymbol { name, description := some "flag" }

def slot (l : Locals) (offset : Int64) (t : Option Ty) : VarId × Locals :=
  match l.slots[offset]? with
  | some v => (v, l)
  | none =>
    let (v, l) := l.addSymbol
      { name := slotName offset, type := t, description := some "stack" }
    (v, { l with slots := l.slots.insert offset v })

def slot? (l : Locals) (offset : Int64) : Option Symbol :=
  l.slots[offset]?.map l.get

/-- The number of the variable of a register's definition at a site, if there is one. -/
def ssaId? (l : Locals) (register : String) (site : UInt64) : Option VarId :=
  (l.ssa.toList.find? fun d => d.register == register && d.site == site).map (·.var)

/-- The variable of a register's definition at a site, if there is one. -/
def ssa? (l : Locals) (register : String) (site : UInt64) : Option Symbol :=
  (l.ssaId? register site).map l.get

/-- Gives a variable a type if it has none. -/
def settleType (l : Locals) (v : VarId) (t : Option Ty) : Locals :=
  { l with vars := l.vars.modify v fun s =>
      match s.type with
      | none => { s with type := t }
      | some _ => s }

/-- The variable of a register's definition at a site, and whether it was made just now. Asked for
again with a type, a variable without one takes it. -/
def ssaVariable (l : Locals) (register : String) (site : UInt64) (t : Option Ty) :
    VarId × Bool × Locals :=
  match l.ssaId? register site with
  | some v => (v, false, l.settleType v t)
  | none =>
    let (v, l) := l.addSymbol
      { name := ssaName register site, type := t
        description := some ("ssa value of " ++ register) }
    (v, true, { l with ssa := l.ssa.push ⟨register, site, v⟩ })

/-- The symbols named after the definitions at a site, in the order in which they were asked for. -/
def ssaAt (l : Locals) (site : UInt64) : List Symbol :=
  (l.ssa.toList.filter fun d => d.site == site).filterMap fun d =>
    l.symbol? (ssaName d.register site)

/-- Keeps the constant that a variable holds. -/
def setConstant (l : Locals) (name : String) (value : C.Expr) : Locals :=
  { l with constants := l.constants.insert name value }

def constant? (l : Locals) (name : String) : Option C.Expr :=
  l.constants[name]?

/-- The first number after `n` whose temporary is not taken, among the next `limit`. -/
def freeTemporary (l : Locals) : Nat → Nat → Nat
  | 0, n => n + 1
  | limit + 1, n =>
    if l.symbols.contains (temporaryName (n + 1)) then l.freeTemporary limit (n + 1) else n + 1

/-- Makes a temporary with a name that is not taken. -/
def freshTemporary (l : Locals) (t : Option Ty) : VarId × Locals :=
  let n := l.freeTemporary l.symbols.size l.lastTemporary
  { l with lastTemporary := n }.insert
    { name := temporaryName n, type := t, description := some "temporary" }

end Locals

end FactLift
