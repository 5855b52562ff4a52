import FactLift.Config
import FactLift.Instruction.Decode
import FactLift.Provenance.Basic
import FactLift.Symbols.Locals

/-! The state of a lift, and the actions that everything else is made of.

What cannot be resolved becomes a placeholder, and a diagnostic is reported for the instruction at
hand. A fault is kept in the state, and whoever runs the lift has to look for it. -/

namespace FactLift

open C

/-- The dataflow facts of the instruction at hand that have not been handed out. Each kind is handed
out in order. -/
structure Pending where
  reachingDefs : List (Fact Flow) := []
  flagReachingDefs : List (Fact Flow) := []
  defUses : List (Fact Flow) := []
  defUsesHigh : List (Fact Flow) := []

/-- The dataflow facts of a record. -/
def Pending.ofDecoded (d : Decoded) : Pending where
  reachingDefs := d.reachingDefs
  flagReachingDefs := d.flagReachingDefs
  defUses := d.defUses
  defUsesHigh := d.defUsesHigh

/-- What outlives the lift of a function: the global symbols, the numbers given out so far and the
log. After a fault nothing does: all that is done from then on is of no account. -/
structure Workspace where
  globals : Globals := {}
  nextInstr : Nat := 1
  nextExpr : Nat := 1
  nextLval : Nat := 1
  log : Log := #[]
  fault : Option Fault := none

def Workspace.note (w : Workspace) (r : LogRecord) : Workspace :=
  { w with log := w.log.push r }

/-- What the lift of a function reads and changes. -/
structure Session extends Workspace where
  locals : Locals
  /-- The variables of the temporaries of the facts, by their names there. -/
  temporaries : Std.TreeMap String VarId := ∅
  provenance : Provenance := {}
  diagnostics : List Diagnostic := []
  pending : Pending := {}

/-- A session for a function, with nothing lifted yet. -/
def Session.start (w : Workspace) (function : String) : Session where
  toWorkspace := w
  locals := { function }

/-- The instruction at hand. -/
structure Site where
  config : Config
  address : UInt64
  /-- The definitions that reach the instruction. -/
  reaching : List Flow := []

/-- Actions of a lift, for the instruction at hand. -/
abbrev LiftM := ReaderT Site (StateM Session)

/-- Runs an action for the instruction at an address, with the dataflow facts of its record. -/
def LiftM.runAt {α : Type} (x : LiftM α) (config : Config) (address : UInt64) (d : Decoded)
    (s : Session) : α × Session :=
  x ⟨config, address, d.reachingDefs.filterMap Fact.value?⟩ { s with pending := .ofDecoded d }

namespace Session

def note (s : Session) (r : LogRecord) : Session :=
  { s with log := s.log.push r }

/-- Appends a diagnostic, also to the log. -/
def report (s : Session) (d : Diagnostic) : Session :=
  { s.note d.logRecord with diagnostics := s.diagnostics ++ [d] }

/-- Keeps a fault, if there is one. The first one counts. -/
def stop (s : Session) (fault : Option Fault) : Session :=
  { s with fault := s.fault.or fault }

theorem stop_none (s : Session) : s.stop none = s := by
  rw [stop, Option.or_none]

end Session

namespace LiftM

def note (r : LogRecord) : LiftM Unit :=
  modify (·.note r)

/-- Reports a diagnostic for the instruction at hand. -/
def report (kind : DiagnosticKind) (message : String) : LiftM Unit := do
  let site ← read
  modify (·.report ⟨some site.address, kind, message⟩)

/-- The result of a computation. After a fault the fallback takes its place. -/
def attempt {α : Type} (x : Except Fault α) (fallback : α) : LiftM α :=
  modifyGet fun s => (x.toOption.getD fallback, s.stop (Fault.of? x))

/-- A placeholder for an expression, with its diagnostic. -/
def unresolvedExpr (kind : DiagnosticKind) (reason : String) : LiftM Expr := do
  report kind reason
  return .unresolved reason

/-- A placeholder for an offset, with its diagnostic. -/
def unresolvedOffset (reason : String) : LiftM Offset := do
  report .unsupportedOffset reason
  return .unresolved reason

/-- The global symbols. -/
def globals : LiftM Globals :=
  return (← get).globals

/-- The local symbols. -/
def locals : LiftM Locals :=
  return (← get).locals

/-- The local variable that an operation on the local symbols gives. -/
def localVariable (f : Locals → VarId × Locals) : LiftM Symbol :=
  modifyGet fun s =>
    let (v, locals) := f s.locals
    (locals.get v, { s with locals })

/-- The global variable that an operation on the global symbols gives. -/
def globalVariable (f : Globals → Symbol × Globals) : LiftM Symbol :=
  modifyGet fun s =>
    let (v, globals) := f s.globals
    (v, { s with globals })

def registerVariable (name : String) : LiftM Symbol :=
  localVariable (·.register name)

def flagVariable (name : String) : LiftM Symbol :=
  localVariable (·.flag name)

def slotVariable (offset : Int64) : LiftM Symbol :=
  localVariable (·.slot offset none)

/-- A local variable with a name and a description, made if there is none of that name. -/
def namedVariable (name description : String) : LiftM Symbol :=
  localVariable (·.addSymbol { name, description := some description })

/-- The variable of a temporary of the facts, made with a type if there is none. -/
def temporaryOfType (name : String) (t : Option Ty) : LiftM Symbol :=
  modifyGet fun s =>
    match s.temporaries[name]? with
    | some v => (s.locals.get v, s)
    | none =>
      let (v, locals) := s.locals.freshTemporary t
      (locals.get v, { s with locals, temporaries := s.temporaries.insert name v })

def temporaryVariable (name : String) : LiftM Symbol :=
  temporaryOfType name none

def ssaVariable (register : String) (site : UInt64) (t : Option Ty) : LiftM (Symbol × Bool) := do
  let (v, fresh) ← modifyGet fun s =>
    let (v, fresh, locals) := s.locals.ssaVariable register site t
    ((locals.get v, fresh), { s with locals })
  if fresh then
    note ⟨.trace, "Introduced SSA variable",
      [("name", ssaName register site), ("site", Text.hex site.toNat)]⟩
  return (v, fresh)

/-- The address of the variable at a frame offset. -/
def slotAddress (offset : Int64) : LiftM Expr := do
  return .addressOf (.var (← slotVariable offset) .none)

/-! ### Numbered trees -/

def trackExpr (e : Expr) : LiftM (Tracked Expr) :=
  modifyGet fun s => (⟨s.nextExpr, e⟩, { s with nextExpr := s.nextExpr + 1 })

def trackLval (l : Lval) : LiftM (Tracked Lval) :=
  modifyGet fun s => (⟨s.nextLval, l⟩, { s with nextLval := s.nextLval + 1 })

def trackInstr (a : Action) : LiftM Instr :=
  modifyGet fun s => (⟨s.nextInstr, a⟩, { s with nextInstr := s.nextInstr + 1 })

/-- Changes the provenance. -/
def record (f : Provenance → Provenance) : LiftM Unit :=
  modify fun s => { s with provenance := f s.provenance }

/-- Changes the provenance, with a diagnostic if there is something to report. -/
def recordMapping (f : Provenance → Provenance × Option Diagnostic) : LiftM Unit :=
  modify fun s =>
    let (provenance, report) := f s.provenance
    report.elim { s with provenance } fun d => { s with provenance }.report d

/-! ### Handing out dataflow facts -/

/-- Hands out the next reaching definition. -/
def takeReachingDef : LiftM (Option Flow) :=
  modifyGet fun s =>
    (s.pending.reachingDefs.head?.bind Fact.value?,
      { s with pending.reachingDefs := s.pending.reachingDefs.drop 1 })

/-- Hands out all reaching definitions that are left. -/
def takeReachingDefs : LiftM (List Flow) :=
  modifyGet fun s =>
    (s.pending.reachingDefs.filterMap Fact.value?, { s with pending.reachingDefs := [] })

/-- Hands out all reaching definitions of flags that are left. -/
def takeFlagReachingDefs : LiftM (List Flow) :=
  modifyGet fun s =>
    (s.pending.flagReachingDefs.filterMap Fact.value?, { s with pending.flagReachingDefs := [] })

/-- Hands out the next use. -/
def takeDefUse : LiftM (Option Flow) :=
  modifyGet fun s =>
    (s.pending.defUses.head?.bind Fact.value?,
      { s with pending.defUses := s.pending.defUses.drop 1 })

/-- Hands out the next high-level use. -/
def takeDefUseHigh : LiftM (Option Flow) :=
  modifyGet fun s =>
    (s.pending.defUsesHigh.head?.bind Fact.value?,
      { s with pending.defUsesHigh := s.pending.defUsesHigh.drop 1 })

end LiftM

end FactLift
