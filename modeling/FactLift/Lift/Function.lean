import FactLift.Instruction.Journal
import FactLift.Lift.Operation
import FactLift.Program

/-! Lifting a function.

The instructions are lifted one by one. Runs of instructions then become statements of their own,
cut where a branch leads to; the label of a branch's target stands on the high-level statement. An
instruction whose record cannot be decoded, or does not fit its opcode, stops the lift of the
function. What it did to the global symbols remains. -/

namespace FactLift

open C

/-! ### Statements from instructions -/

/-- A lifted instruction, with a label if a branch leads to it. -/
structure Piece where
  label : Option Label
  lifted : Lifted

/-- A run of instructions as a statement; none is no statement. -/
def sequence (labels : List Label) (run : List (Forms Instr)) : List (Forms Stmt) :=
  if run.isEmpty then []
  else [⟨⟨[], .instrs (run.map (·.low))⟩, ⟨labels, .instrs (run.map (·.high))⟩⟩]

/-- A statement whose high-level form has one more label. -/
def labelled (label : Label) (s : Forms Stmt) : Forms Stmt :=
  { s with high := { s.high with labels := s.high.labels ++ [label] } }

/-- Puts pieces together, after a run of instructions that began under some labels. -/
def assembleAfter (labels : List Label) (run : List (Forms Instr)) :
    List Piece → List (Forms Stmt)
  | [] => sequence labels run
  | ⟨none, .instr i⟩ :: rest => assembleAfter labels (run ++ [i]) rest
  | ⟨none, .stmt s⟩ :: rest => sequence labels run ++ s :: assembleAfter [] [] rest
  | ⟨some l, .instr i⟩ :: rest => sequence labels run ++ assembleAfter [l] [i] rest
  | ⟨some l, .stmt s⟩ :: rest =>
    sequence labels run ++ labelled l s :: assembleAfter [] [] rest

/-- The body of a function from its pieces. -/
def assemble (pieces : List Piece) : Forms Stmt :=
  let stmts := assembleAfter [] [] pieces
  ⟨.ofBody (.block (stmts.map (·.low))), .ofBody (.block (stmts.map (·.high)))⟩

/-! ### Instructions -/

/-- Lifts an instruction. -/
def liftInstruction (cfg : Config) (cx : DecodeContext) (i : InstructionFacts) (s : Session) :
    Except Error Lifted × Session :=
  let s := (decodeNotes cfg cx i.record).foldl Session.note s
  match decodeRecord cx i.record with
  | .error e => (.error e, s)
  | .ok d => (LiftM.liftOperation i.operation i.record d i.size).run.runAt cfg i.address d s

/-- Lifts instructions one after the other, up to the first that cannot be. -/
def liftInstructions (cfg : Config) (cx : DecodeContext) (targets : List UInt64) :
    List InstructionFacts → Session → Except Error (List Piece) × Session
  | [], s => (.ok [], s)
  | i :: rest, s =>
    match liftInstruction cfg cx i s with
    | (.error e, s) => (.error e, s)
    | (.ok lifted, s) =>
      let label := if targets.contains i.address then some (.plain (addressLabel i.address)) else none
      let (pieces, s) := liftInstructions cfg cx targets rest s
      (pieces.map (⟨label, lifted⟩ :: ·), s)

/-! ### Functions -/

/-- A lifted function: its low-level and its high-level body, and what was found out on the way. -/
structure LiftedFunction where
  name : String
  body : Forms Stmt
  locals : Locals
  provenance : Provenance
  diagnostics : List Diagnostic

/-- Finishes a lift: the dataflow facts are resolved against the instructions. -/
def Session.finish (s : Session) (body : Forms Stmt) : LiftedFunction × Workspace :=
  let (provenance, dangling) := s.provenance.resolve
  let s := dangling.foldl Session.report { s with provenance }
  let s := s.note ⟨.debug, "Resolved provenance",
    [("reaching_definitions", toString provenance.definitions.size),
      ("flag_reaching_definitions", toString provenance.flagDefinitions.size),
      ("definitions_used", toString provenance.users.size)]⟩
  let s := s.note ⟨.info, "Finished lifting function",
    [("function", s.locals.function),
      ("instructions", toString body.high.instructions.length),
      ("diagnostics", toString s.diagnostics.length)]⟩
  ({ name := s.locals.function, body, locals := s.locals, provenance := s.provenance
     diagnostics := s.diagnostics }, s.toWorkspace)

/-- A session for a function, with its parameters. -/
def Session.enter (w : Workspace) (name : String) (formals : List Formal) : Session :=
  let s := Session.start w name
  { s with locals := formals.foldl (fun l f => (l.addFormal f.name f.type f.location).2) s.locals }

/-- Lifts a function. -/
def liftFunction (cfg : Config) (p : ProgramFacts) (f : FunctionFacts) (w : Workspace) :
    Except Error LiftedFunction × Workspace :=
  let w := w.note ⟨.info, "Lifting function",
    [("function", f.name), ("address", Text.hex f.address.toNat)]⟩
  match liftInstructions cfg (p.context f) f.branchTargets f.instructions
      (Session.enter w f.name f.formals) with
  | (.error e, s) => (.error e, s.toWorkspace)
  | (.ok pieces, s) =>
    let (lifted, w) := s.finish (assemble pieces)
    (.ok lifted, w)

/-- Lifts functions one after the other over the same global symbols. -/
def liftFunctions (cfg : Config) (p : ProgramFacts) :
    List FunctionFacts → Workspace → List (FunctionFacts × Except Error LiftedFunction) × Workspace
  | [], w => ([], w)
  | f :: rest, w =>
    let (lifted, w) := liftFunction cfg p f w
    let (others, w) := liftFunctions cfg p rest w
    ((f, lifted) :: others, w)

end FactLift
