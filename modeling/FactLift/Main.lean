import FactLift.Command.LogText
import FactLift.Command.Run

/-! The program: `lift <facts>` writes every function of a fact file as C. -/

namespace FactLift.Command

def systemFiles : Files IO where
  read path := do
    try return .ok (← IO.FS.readFile path)
    catch e => return .error (toString e)
  write path text := do
    try
      IO.FS.writeFile path text
      return .ok ()
    catch e => return .error (toString e)

def usage : String :=
  "usage: lift <facts> [--output-c <file>] [--low-level] [--debug-output-graphviz <directory>]\n" ++
    "       [--debug-disable-terminal-logging] [--debug-forced-blocking-terminal-logging]\n" ++
    "       [--log <file>] [-d]... [-Z <flag>]...\n"

/-- Writes the log: to its file if there is one, with only errors on the terminal then. -/
def writeLog (o : Options) (log : Log) : IO Unit := do
  let level : LogLevel := if o.logFile.isSome then .error else .ofVerbosity o.verbosity
  unless o.quiet do
    for r in log.atLeast level do
      IO.eprintln (terminalLine r)
  match o.logFile, o.logged log with
  | none, _ | _, [] => pure ()
  | some path, records =>
    discard (systemFiles.write path (String.join (records.map fun r => jsonLine r ++ "\n")))

def run (args : List String) : IO UInt32 := do
  match parse args with
  | .error .help =>
    IO.print usage
    return 0
  | .error .misuse =>
    IO.eprint usage
    return 2
  | .ok o =>
    let report ← lift systemFiles o
    IO.print report.stdout
    writeLog o report.log
    return report.exit.toUInt32

end FactLift.Command

/-- The program. -/
def main (args : List String) : IO UInt32 :=
  FactLift.Command.run args
