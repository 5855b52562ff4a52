import FactLift.Config

/-! The command line.

`lift <facts>` takes switches before and after the path. A long switch has its value in the next
argument or after `=`; short switches may stand together, and the last of them may have its value
attached. After `--` there are only paths. All but `-d` and `-Z` may be given once. A switch that
takes a value needs one, but not each time that it is given. -/

namespace FactLift.Command

/-- The switches of `lift`. -/
inductive Switch
  | outputC | lowLevel | graphs | quiet | blocking | logFile | debug | advanced | help
deriving DecidableEq, Repr

namespace Switch

def all : List Switch :=
  [outputC, lowLevel, graphs, quiet, blocking, logFile, debug, advanced, help]

/-- The name after two dashes. -/
def long : Switch → String
  | outputC => "output-c"
  | lowLevel => "low-level"
  | graphs => "debug-output-graphviz"
  | quiet => "debug-disable-terminal-logging"
  | blocking => "debug-forced-blocking-terminal-logging"
  | logFile => "log"
  | debug => "debug"
  | advanced => "advanced-config"
  | help => "help"

/-- The letter after one dash. -/
def short? : Switch → Option Char
  | debug => some 'd'
  | advanced => some 'Z'
  | help => some 'h'
  | _ => none

/-- Whether a value belongs to the switch. -/
def takesValue : Switch → Bool
  | outputC | graphs | logFile | advanced => true
  | _ => false

/-- Whether the switch may be given more than once. -/
def repeats : Switch → Bool
  | debug | advanced => true
  | _ => false

def ofLong? (name : String) : Option Switch :=
  all.find? fun s => s.long == name

def ofShort? (letter : Char) : Option Switch :=
  all.find? fun s => s.short? == some letter

end Switch

/-- Why a command line leads to no lift. -/
inductive Stop
  /-- Help was asked for. -/
  | help
  /-- The arguments make no sense. -/
  | misuse
deriving DecidableEq, Repr

/-- What was found among the arguments. -/
structure Found where
  switches : List (Switch × Option String) := []
  facts : Option String := none
  /-- The switch that the next argument is a value for. -/
  waiting : Option Switch := none
  onlyPaths : Bool := false
deriving DecidableEq, Repr

namespace Found

/-- Keeps a switch. -/
def add (f : Found) (s : Switch) (value : Option String) : Found :=
  { f with switches := f.switches ++ [(s, value)] }

/-- Stops waiting for a value, and keeps the switch without one. -/
def interrupt (f : Found) : Found :=
  match f.waiting with
  | none => f
  | some s => { f with waiting := none }.add s none

/-- Keeps a path. There may be one. -/
def addPath (f : Found) (path : String) : Except Stop Found :=
  match f.facts with
  | none => .ok { f with facts := some path }
  | some _ => .error .misuse

/-- Takes a switch that comes with a value attached or without one. -/
def take (f : Found) (s : Switch) (attached : Option String) : Except Stop Found :=
  match s, s.takesValue, attached with
  | .help, _, none => .error .help
  | _, true, some value => .ok (f.add s (some value))
  | _, true, none => .ok { f with waiting := some s }
  | _, false, none => .ok (f.add s none)
  | _, false, some _ => .error .misuse

/-- Takes a long switch, from the text after the dashes. -/
def takeLong (f : Found) (text : List Char) : Except Stop Found :=
  let name := text.takeWhile (· != '=')
  let attached := match text.dropWhile (· != '=') with
    | [] => none
    | _ :: value => some (String.ofList value)
  match Switch.ofLong? (String.ofList name) with
  | some s => f.take s attached
  | none => .error .misuse

/-- Takes short switches that stand together. What follows one that takes a value is the value,
with or without a `=` in front. -/
def takeShort (f : Found) : List Char → Except Stop Found
  | [] => .ok f
  | letter :: rest =>
    match Switch.ofShort? letter with
    | none => .error .misuse
    | some s =>
      if s.takesValue then
        match rest with
        | [] => f.take s none
        | '=' :: value => f.take s (some (String.ofList value))
        | value => f.take s (some (String.ofList value))
      else do (← f.take s none).takeShort rest

def next (f : Found) (arg : String) : Except Stop Found :=
  if f.onlyPaths then f.addPath arg
  else
    match arg.toList with
    | ['-', '-'] => .ok { f.interrupt with onlyPaths := true }
    | '-' :: '-' :: text => f.interrupt.takeLong text
    | '-' :: letter :: rest => f.interrupt.takeShort (letter :: rest)
    | _ =>
      match f.waiting with
      | some s => .ok ({ f with waiting := none }.add s (some arg))
      | none => f.addPath arg

/-- How often a switch was given. -/
def count (f : Found) (s : Switch) : Nat :=
  f.switches.countP fun (s', _) => s' == s

def values (f : Found) (s : Switch) : List String :=
  f.switches.filterMap fun (s', value) => if s' = s then value else none

/-- Whether a switch was given as often as it may be, and with the value that belongs to it. -/
def allows (f : Found) (s : Switch) : Bool :=
  let given := f.count s
  (s.repeats || given ≤ 1) && (!s.takesValue || given = 0 || !(f.values s).isEmpty)

end Found

/-- What a lift was asked to do. -/
structure Options where
  facts : String
  /-- The file for the listings; standard output without one. -/
  outputC : Option String
  /-- Whether the low-level form of each function is listed too. -/
  lowLevel : Bool
  /-- The directory for the provenance graphs. -/
  graphs : Option String
  /-- Whether the terminal shows no log. -/
  quiet : Bool
  logFile : Option String
  verbosity : Nat
  flags : List ConfigFlag
deriving DecidableEq, Repr

/-- The options that were found, if they are complete. -/
def Found.options (f : Found) : Except Stop Options := do
  unless Switch.all.all f.allows do throw .misuse
  let some facts := f.facts | throw .misuse
  let some flags := (f.values .advanced).mapM ConfigFlag.ofName? | throw .misuse
  return {
    facts
    outputC := (f.values .outputC).head?
    lowLevel := 0 < f.count .lowLevel
    graphs := (f.values .graphs).head?
    quiet := 0 < f.count .quiet
    logFile := (f.values .logFile).head?
    verbosity := f.count .debug
    flags }

/-- Reads the arguments of the program. -/
def parse (args : List String) : Except Stop Options := do
  match args with
  | "lift" :: rest => (← rest.foldlM Found.next {}).interrupt.options
  | ["help"] | ["help", "lift"] | ["help", "help"] | "--help" :: _ | "--version" :: _ =>
    throw .help
  | first :: _ =>
    match first.toList with
    | '-' :: 'h' :: _ | '-' :: 'V' :: _ => throw .help
    | _ => throw .misuse
  | [] => throw .misuse

end FactLift.Command
