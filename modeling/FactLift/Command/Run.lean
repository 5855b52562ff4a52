import FactLift.Command.Options
import FactLift.FactFile.Load
import FactLift.Listing
import FactLift.Provenance.Graph

/-! Running a lift from the command line.

Files are reached through two operations, so the same run serves the program and whoever wants to
try it without touching a disk. A function that cannot be lifted is logged and left out. A fault ends
the run: the listings are still unwritten then, and they are lost. -/

namespace FactLift.Command

/-- How files are read and written. Both may fail, with a reason. -/
structure Files (m : Type → Type) where
  read : String → m (Except String String)
  write : String → String → m (Except String Unit)

/-- How a run ended. -/
structure Report where
  exit : Nat
  stdout : String
  log : Log

/-- The path of a file in a directory; an absolute name stays as it is. -/
def joinPath (directory name : String) : String :=
  if name.startsWith "/" || directory.isEmpty then name
  else if directory.endsWith "/" then directory ++ name
  else directory ++ "/" ++ name

/-- The record for a function that is left out. -/
def notLifted (name : String) (e : Error) : LogRecord :=
  ⟨.error, "Function not lifted", [("function", name), ("error", e.message)]⟩

/-- The listing of a lifted function. -/
def listing (o : Options) (g : Globals) (f : LiftedFunction) : String :=
  f.listing g f.body.high ++ "\n" ++
    (if o.lowLevel then "// low level\n" ++ f.listing g f.body.low ++ "\n" else "")

/-- What a run has done so far. -/
structure Progress where
  workspace : Workspace
  out : String := ""
  failed : Nat := 0

def Progress.note (p : Progress) (r : LogRecord) : Progress :=
  { p with workspace := p.workspace.note r }

section

variable {m : Type → Type} [Monad m]

/-- Writes the provenance graph of a function, if graphs are asked for. -/
def writeGraph (files : Files m) (o : Options) (f : LiftedFunction) (p : Progress) :
    m Progress := do
  match o.graphs with
  | none => return p
  | some directory =>
    let path := joinPath directory (f.name ++ ".dot")
    match ← files.write path (f.provenance.graph id) with
    | .ok _ => return p
    | .error e =>
      return p.note ⟨.error, "Could not write provenance graph",
        [("path", Text.quote path), ("error", e)]⟩

/-- Lifts functions one after the other, up to the first whose lift ends in a fault. -/
def liftEach (files : Files m) (o : Options) (program : ProgramFacts) :
    List FunctionFacts → Progress → m Progress
  | [], p => return p
  | f :: rest, p => do
    let (outcome, workspace) :=
      liftFunction (Config.ofFlags o.flags) program f p.workspace
    let p := { p with workspace }
    if workspace.fault.isSome then return p
    else
      match outcome with
      | .error e =>
        liftEach files o program rest { p.note (notLifted f.name e) with failed := p.failed + 1 }
      | .ok lifted =>
        let p := lifted.diagnostics.foldl (fun p d => p.note
          ⟨.info, "Diagnostic", [("function", lifted.name), ("diagnostic", d.text)]⟩) p
        let p := { p with out := p.out ++ listing o workspace.globals lifted }
        liftEach files o program rest (← writeGraph files o lifted p)

/-- Writes the listings to their file; those for standard output are left to the report. -/
def writeListings (files : Files m) (o : Options) (out : String) : m (Except String Unit) :=
  match o.outputC with
  | some path => files.write path out
  | none => return .ok ()

/-- Lifts every function of a program. -/
def liftProgram (files : Files m) (o : Options) (program : ProgramFacts) (log : Log) :
    m Report := do
  let log := program.rejected.foldl (fun log (name, e) => log.push (notLifted name e)) log
  let p ← liftEach files o program program.functions
    { workspace := { globals := program.globals, log }, failed := program.rejected.length }
  match p.workspace.fault with
  | some fault => return ⟨fault.exit, "", p.workspace.log⟩
  | none =>
    match ← writeListings files o p.out with
    | .error e =>
      let p := p.note ⟨.critical, "Output could not be written", [("error", e)]⟩
      return ⟨1, "", p.workspace.log⟩
    | .ok _ =>
      let total := program.functions.length + program.rejected.length
      let p := p.note ⟨.info, "Done",
        [("program", program.name), ("lifted", toString (total - p.failed)),
          ("failed", toString p.failed)]⟩
      return ⟨0, if o.outputC.isSome then "" else p.out, p.workspace.log⟩

/-- Loads the facts and lifts every function. -/
def lift (files : Files m) (o : Options) : m Report := do
  let stopped (what reason : String) (log : Log) : Report :=
    ⟨1, "", log.push ⟨.critical, what, [("path", Text.quote o.facts), ("error", reason)]⟩⟩
  match ← files.read o.facts with
  | .error e => return stopped "Fact file could not be read" e #[]
  | .ok text =>
    match FactFile.load text with
    | (.error e, log) => return stopped "Fact file could not be loaded" e.message log
    | (.ok program, log) => liftProgram files o program log

end

/-- The records that go to the log file. -/
def Options.logged (o : Options) (log : Log) : List LogRecord :=
  log.atLeast (.ofVerbosity o.verbosity)

end FactLift.Command
