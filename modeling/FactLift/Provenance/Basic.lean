import FactLift.C.Stmt
import FactLift.Dataflow
import FactLift.Provenance.Mapping
import FactLift.Target

/-! Provenance: what ties the high-level trees of a function to the low-level ones, and both to
addresses and dataflow facts.

Recording never fails. Every node that something is recorded about is kept under its number, as it
was when it was first recorded. -/

namespace FactLift

open C

/-- A range of bytes. -/
structure ByteSpan where
  address : UInt64
  size : Nat
deriving DecidableEq, Repr

def ByteSpan.text (s : ByteSpan) : String :=
  Text.hex s.address.toNat ++ "+" ++ toString s.size

/-- What is recorded about the nodes of a function. -/
structure Provenance where
  instrs : NodeMapping := {}
  exprs : NodeMapping := {}
  lvals : NodeMapping := {}
  /-- Definitions that reach an expression. -/
  reachingDefs : Std.TreeMap Nat (List Flow) := ∅
  /-- Definitions of flags that reach an expression. -/
  flagReachingDefs : Std.TreeMap Nat (List Flow) := ∅
  /-- Uses of what an lvalue is given. -/
  defUses : Std.TreeMap Nat Flow := ∅
  /-- Uses of what an lvalue is given, in the high-level code. -/
  defUsesHigh : Std.TreeMap Nat Flow := ∅
  /-- High-level uses that are gone. -/
  inactiveUses : MultiMap Nat String := ∅
  /-- The lvalues that are stores to memory. -/
  stores : Std.TreeMap Nat Unit := ∅
  spans : Std.TreeMap Nat ByteSpan := ∅
  instrAddresses : Std.TreeMap Nat (List UInt64) := ∅
  addressInstrs : MultiMap UInt64 Nat := ∅
  conditionAddresses : Std.TreeMap Nat (List UInt64) := ∅
  instructions : Std.TreeMap Nat Action := ∅
  expressions : Std.TreeMap Nat Expr := ∅
  lvalues : Std.TreeMap Nat Lval := ∅
  /-- Instructions that define an expression; known once the facts are resolved. -/
  definitions : MultiMap Nat Nat := ∅
  /-- Instructions that define the flags of an expression; known once the facts are resolved. -/
  flagDefinitions : MultiMap Nat Nat := ∅
  /-- Instructions that use what an lvalue is given; known once the facts are resolved. -/
  users : MultiMap Nat Nat := ∅

namespace Provenance

/-! ### Recording -/

def keepInstr (p : Provenance) (i : Instr) : Provenance :=
  { p with instructions := p.instructions.insertIfNew i.id i.tree }

def keepExpr (p : Provenance) (e : Tracked Expr) : Provenance :=
  { p with expressions := p.expressions.insertIfNew e.id e.tree }

def keepLval (p : Provenance) (l : Tracked Lval) : Provenance :=
  { p with lvalues := p.lvalues.insertIfNew l.id l.tree }

/-- Maps a low-level instruction to a high-level one. -/
def mapInstr (p : Provenance) (low high : Instr) (site : Option UInt64) :
    Provenance × Option Diagnostic :=
  let (instrs, report) := p.instrs.register .instruction low.id high.id site
  (({ p with instrs }.keepInstr low).keepInstr high, report)

/-- Maps a low-level expression to a high-level one. -/
def mapExpr (p : Provenance) (low high : Tracked Expr) (site : Option UInt64) :
    Provenance × Option Diagnostic :=
  let (exprs, report) := p.exprs.register .expression low.id high.id site
  (({ p with exprs }.keepExpr low).keepExpr high, report)

/-- Maps a low-level lvalue to a high-level one. -/
def mapLval (p : Provenance) (low high : Tracked Lval) (site : Option UInt64) :
    Provenance × Option Diagnostic :=
  let (lvals, report) := p.lvals.register .lvalue low.id high.id site
  (({ p with lvals }.keepLval low).keepLval high, report)

/-- Records the definitions that reach an expression; none is nothing to record. -/
def addReachingDefs (p : Provenance) (e : Tracked Expr) (flows : List Flow) : Provenance :=
  if flows.isEmpty then p
  else { p with reachingDefs := p.reachingDefs.insert e.id flows }.keepExpr e

/-- Records the definitions of flags that reach an expression; none is nothing to record. -/
def addFlagReachingDefs (p : Provenance) (e : Tracked Expr) (flows : List Flow) : Provenance :=
  if flows.isEmpty then p
  else { p with flagReachingDefs := p.flagReachingDefs.insert e.id flows }.keepExpr e

def addDefUse (p : Provenance) (l : Tracked Lval) (flow : Option Flow) : Provenance :=
  match flow with
  | some f => { p with defUses := p.defUses.insert l.id f }.keepLval l
  | none => p

/-- Records the high-level uses of what an lvalue is given. -/
def addDefUseHigh (p : Provenance) (l : Tracked Lval) (flow : Option Flow) : Provenance :=
  match flow with
  | some f => { p with defUsesHigh := p.defUsesHigh.insert l.id f }.keepLval l
  | none => p

/-- Records that the high-level use at a location is gone. -/
def inactivate (p : Provenance) (lval : Nat) (location : String) : Provenance :=
  { p with inactiveUses := p.inactiveUses.add lval location }

/-- Records that an lvalue is a store to memory. -/
def addStore (p : Provenance) (l : Tracked Lval) : Provenance :=
  { p with stores := p.stores.insert l.id () }.keepLval l

def addSpan (p : Provenance) (i : Instr) (span : ByteSpan) : Provenance :=
  { p with spans := p.spans.insert i.id span }.keepInstr i

/-- Records the addresses that an instruction comes from. -/
def addAddresses (p : Provenance) (i : Instr) (addresses : List UInt64) : Provenance :=
  { p with
    addressInstrs := addresses.foldl (fun m a => m.add a i.id) p.addressInstrs
    instrAddresses := p.instrAddresses.insert i.id addresses }.keepInstr i

/-- Records the addresses that a condition comes from. -/
def addConditionAddresses (p : Provenance) (e : Tracked Expr) (addresses : List UInt64) :
    Provenance :=
  { p with conditionAddresses := p.conditionAddresses.insert e.id addresses }.keepExpr e

/-! ### Looking up -/

/-- The high-level instruction of a low-level one. -/
def highInstruction? (p : Provenance) (low : Nat) : Option Action := do
  p.instructions[← p.instrs.high? low]?

/-- The low-level instructions of a high-level one. -/
def lowInstructions (p : Provenance) (high : Nat) : List Action :=
  (p.instrs.lows high).filterMap fun low => p.instructions[low]?

/-- The high-level expression of a low-level one. -/
def highExpression? (p : Provenance) (low : Nat) : Option Expr := do
  p.expressions[← p.exprs.high? low]?

/-- The high-level lvalue of a low-level one. -/
def highLvalue? (p : Provenance) (low : Nat) : Option Lval := do
  p.lvalues[← p.lvals.high? low]?

/-- The instructions that come from an address. -/
def instrsAt (p : Provenance) (a : UInt64) : List Nat :=
  p.addressInstrs.get a

/-- Whether some high-level use of what an lvalue is given is not gone. -/
def hasActiveUse (p : Provenance) (lval : Nat) : Bool :=
  match p.defUsesHigh[lval]? with
  | some f => f.locations.any fun location => !(p.inactiveUses.get lval).contains location
  | none => false

/-- Whether an lvalue is a store to memory. -/
def isStore (p : Provenance) (lval : Nat) : Bool :=
  p.stores.contains lval

/-! ### Resolving -/

/-- Whether an lvalue is the variable with a name. -/
def isNamed (name : String) (l : Tracked Lval) : Bool :=
  l.tree.symbol?.any fun s => s.name == name

/-- Whether an instruction defines the variable with a name. Calls also define the registers that
carry their value. -/
def defines (p : Provenance) (name : String) (instr : Nat) : Bool :=
  match p.instructions[instr]? with
  | some (.assign l _) => isNamed name l
  | some (.call target _ _) => target.any (isNamed name) || Target.isReturnRegister name
  | _ => false

/-- The name under which a fact's variable is defined: that of its register, or its own. -/
def definedName (f : Flow) : String :=
  f.var.register?.getD f.var.name

/-- The instructions that a reaching definition refers to. -/
def definersOf (p : Provenance) (f : Flow) : List Nat :=
  f.addresses.flatMap fun a => (p.instrsAt a).filter (p.defines (definedName f))

/-- The instructions at the addresses of a fact. -/
def instrsOf (p : Provenance) (f : Flow) : List Nat :=
  f.addresses.flatMap p.instrsAt

/-- The addresses of a fact at which there is no instruction, each as a diagnostic. -/
def danglingOf (p : Provenance) (what : String) (f : Flow) : List Diagnostic :=
  (f.addresses.filter fun a => (p.instrsAt a).isEmpty).map fun a =>
    ⟨some a, .unresolvedValue, what ++ ": no instruction at address"⟩

/-- The links that facts attached to nodes give rise to. -/
def links (attached : List (Nat × Flow)) (instrs : Flow → List Nat) : MultiMap Nat Nat :=
  attached.foldl (fun m (node, f) => m.addAll node (instrs f)) ∅

/-- The facts of every node, one by one. -/
def spread (facts : Std.TreeMap Nat (List Flow)) : List (Nat × Flow) :=
  facts.toList.flatMap fun (node, flows) => flows.map fun f => (node, f)

/-- Links nodes to instructions by the addresses in their dataflow facts. Addresses of flag
definitions and of uses at which there is no instruction are reported. -/
def resolve (p : Provenance) : Provenance × List Diagnostic :=
  let flags := spread p.flagReachingDefs
  let uses := p.defUses.toList
  let usesHigh := p.defUsesHigh.toList
  ({ p with
      definitions := links (spread p.reachingDefs) p.definersOf
      flagDefinitions := links flags p.instrsOf
      users := links (uses ++ usesHigh) p.instrsOf },
    flags.flatMap (fun (_, f) => p.danglingOf "flag reaching definition" f) ++
      uses.flatMap (fun (_, f) => p.danglingOf "def-use" f) ++
      usesHigh.flatMap (fun (_, f) => p.danglingOf "def-use-high" f))

end Provenance

end FactLift
