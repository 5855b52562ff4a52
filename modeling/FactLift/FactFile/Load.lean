import FactLift.FactFile.Item
import FactLift.Log
import FactLift.Program

/-! Loading a fact file.

| header                       | lines below it                                                   |
|------------------------------|------------------------------------------------------------------|
| `PROGRAM <name>`             |                                                                  |
| `STRINGS`                    | texts, numbered from one                                         |
| `TYPES`                      | types, numbered from one                                         |
| `TYPEDEFS`                   | `<name> <type>`                                                  |
| `COMPOSITE <key> <name> [union]` | `<field> <type> <offset or ->`                               |
| `GLOBALS`                    | `<name> <type or -> [<address>]`                                 |
| `FUNCTION <name> <address>`  | `formal <name> <type> reg <register>` or `… stack <offset>`      |
| `TABLE <name>`               | `<index>: <tags> | <arguments>`, of the function above           |
| `INSTRUCTIONS`               | `<address> <size> <opcode> ; <facts>`, of the function above     |

A line that cannot be read fails the whole file. A function whose dataflow facts or opcode records
are not in order is set aside, and the others are not affected. -/

namespace FactLift.FactFile

open C

/-- An instruction as it was read. -/
structure DraftInstruction where
  line : Nat
  address : UInt64
  size : Nat
  opcode : Content
  facts : Content

/-- A function whose sections are still being read. -/
structure DraftFunction where
  line : Nat
  name : String
  address : UInt64
  formals : List Formal := []
  dictionary : Dictionary := {}
  flows : Option Table := none
  instructions : List DraftInstruction := []

/-- Checks instructions and numbers them from an index. A refusal comes with its line. -/
def checkInstructions : Nat → List DraftInstruction → Except (Nat × Error) (List InstructionFacts)
  | _, [] => .ok []
  | index, d :: rest =>
    match Operation.ofRecord ⟨index, d.opcode⟩ with
    | .error e => .error (d.line, e)
    | .ok operation => do
      let others ← checkInstructions (index + 1) rest
      return ⟨d.address, d.size, operation, ⟨index, d.facts⟩⟩ :: others

/-- Decodes the dataflow facts of a function and checks its instructions. -/
def DraftFunction.check (d : DraftFunction) : Except Error FunctionFacts × List LogRecord :=
  match d.flows.mapM fun t => FlowStore.decode t d.dictionary with
  | .error e => (.error e, [])
  | .ok flows =>
    match checkInstructions 1 d.instructions with
    | .error (line, e) =>
      (.error e,
        [⟨.debug, "Opcode record rejected", [("line", toString line), ("error", e.message)]⟩])
    | .ok instructions =>
      (.ok { name := d.name, address := d.address, formals := d.formals
             dictionary := d.dictionary, flows, instructions },
        [⟨.trace, "Loaded function",
          [("function", d.name), ("line", toString d.line),
            ("instructions", toString instructions.length)]⟩])

/-- What has been read so far. -/
structure Draft where
  name : String := ""
  globals : Globals := {}
  strings : List String := []
  types : List Ty := []
  functions : List FunctionFacts := []
  rejected : List (String × Error) := []
  current : Option DraftFunction := none
  log : Log := #[]

namespace Draft

def note (d : Draft) (r : LogRecord) : Draft :=
  { d with log := d.log.push r }

/-- Closes the function that is being read: it is taken, or set aside. -/
def close (d : Draft) : Draft :=
  match d.current with
  | none => d
  | some f =>
    let (outcome, notes) := f.check
    let d := notes.foldl note { d with current := none }
    match outcome with
    | .ok facts => { d with functions := d.functions ++ [facts] }
    | .error e =>
      { d with rejected := d.rejected ++ [(f.name, e)] }.note
        ⟨.warning, "Function rejected", [("function", f.name), ("error", e.message)]⟩

/-- Registers a composite that was defined at a line. -/
def addComposite (d : Draft) (line : Nat) (c : Composite) : Except Error Draft :=
  match d.globals.addComposite c with
  | .error e => .error (.parse line e.message)
  | .ok globals =>
    if (d.globals.composite? c.key).isSome then .ok { d with globals }
    else
      .ok ({ d with globals }.note
        ⟨.debug, "Registered composite", [("name", c.name), ("ckey", toString c.key)]⟩)

/-- The function above a section. -/
def currentFunction (d : Draft) (line : Nat) (header : String) : Except Error DraftFunction :=
  match d.current with
  | some f => .ok f
  | none => .error (.parse line s!"{header} outside of a function")

end Draft

/-! ### Lines -/

def readTypedef (types : List Ty) (l : Line) : Except Error (String × Ty) := do
  match l.words with
  | [name, t] => return (name, ← readTypeRef types l.number t)
  | _ => .error (.parse l.number "expected `<name> <type>`")

def readField (types : List Ty) (l : Line) : Except Error Field := do
  match l.words with
  | [name, t, offset] =>
    let type ← readTypeRef types l.number t
    let offset ← if offset == "-" then pure none else some <$> readInt l.number offset
    return { name, type, offset }
  | _ => .error (.parse l.number "expected `<field> <type> <offset>`")

/-- The type of a global, or none. -/
def readOptionalType (types : List Ty) (line : Nat) (word : String) : Except Error (Option Ty) :=
  if word == "-" then .ok none else some <$> readTypeRef types line word

def readGlobal (types : List Ty) (l : Line) : Except Error Symbol := do
  match l.words with
  | [name, t] => return { name, type := ← readOptionalType types l.number t }
  | [name, t, a] =>
    let address ← readAddress l.number a
    return { name, type := ← readOptionalType types l.number t, address := some address }
  | _ => .error (.parse l.number "expected `<name> <type> [<address>]`")

def readFormal (types : List Ty) (l : Line) : Except Error Formal := do
  match l.words with
  | ["formal", name, t, "reg", r] =>
    return { name, type := ← readTypeRef types l.number t, location := .register r }
  | ["formal", name, t, "stack", o] =>
    let offset ← readInt l.number o
    return { name, type := ← readTypeRef types l.number t, location := .stack offset }
  | _ => .error (.parse l.number "expected `formal <name> <type> reg|stack <location>`")

def readRecord (t : Table) (l : Line) : Except Error Table :=
  match Text.splitOnce ':' l.text with
  | none => .error (.parse l.number "expected `<index>: <tags> | <args>`")
  | some (index, content) => do
    let index ← readIndex l.number (String.ofList (Text.trim index))
    let content ← readContent l.number content
    match t.insertAt index content with
    | .ok t => return t
    | .error e => .error (.parse l.number e.message)

/-- The first two words of a line and the rest. One white space character ends a word, so two in a
row have an empty word between them. -/
def twoWords? (cs : List Char) : Option (String × String × List Char) := do
  let (a, rest) ← Text.splitFirst Text.isBlank cs
  let (b, rest) ← Text.splitFirst Text.isBlank rest
  return (String.ofList a, String.ofList b, rest)

def readInstruction (l : Line) : Except Error DraftInstruction :=
  match twoWords? (Text.trim l.text) with
  | none => .error (.parse l.number "expected `<address> <size> ...`")
  | some (address, size, rest) =>
    match Text.splitOnce ';' rest with
    | none => .error (.parse l.number "expected `<opcode> ; <facts>`")
    | some (opcode, facts) => do
      let address ← readAddress l.number address
      let size ← readAddress l.number size
      let opcode ← readContent l.number opcode
      let facts ← readContent l.number facts
      return { line := l.number, address, size := size.toNat, opcode, facts }

/-! ### Sections -/

/-- Reads types one after the other; each may refer to those before it. -/
def readTypes (types : List Ty) (body : List Line) : Except Error (List Ty) :=
  body.foldlM (fun types l => return types ++ [← readType types l.number l.words]) types

/-- Loads the lines of a table of the current function. A dictionary table goes on from where it
ended; the table of dataflow facts starts anew. -/
def readTable (f : DraftFunction) (line : Nat) (name : String) (body : List Line) :
    Except Error DraftFunction := do
  if name == FlowStore.tableName then
    return { f with flows := some (← body.foldlM readRecord { name }) }
  else
    match TableName.ofText? name with
    | none => .error (.parse line s!"unknown table {Text.quote name}")
    | some t =>
      let table ← body.foldlM readRecord (f.dictionary.table t)
      return { f with dictionary := f.dictionary.setTable t table }

/-- Whether a composite is a union, by the words after its name. -/
def readUnionMark (line : Nat) (words : List String) : Except Error Bool :=
  match words with
  | [] => .ok false
  | ["union"] => .ok true
  | _ => .error (.parse line "expected `union` or nothing")

/-- Reads a section, other than the start of a function. -/
def readSection (d : Draft) (s : Section) : Except Error Draft := do
  let line := s.header.number
  match s.header.words with
  | ["PROGRAM", name] => return { d with name }
  | ["STRINGS"] => return { d with strings := d.strings ++ s.body.map Line.string }
  | ["TYPES"] => return { d with types := ← readTypes d.types s.body }
  | ["TYPEDEFS"] =>
    let definitions ← s.body.mapM (readTypedef d.types)
    return { d with
      globals := definitions.foldl (fun g (name, t) => g.addTypedef name t) d.globals }
  | "COMPOSITE" :: key :: name :: rest =>
    let isUnion ← readUnionMark line rest
    let key ← readIndex line key
    let fields ← s.body.mapM (readField d.types)
    d.addComposite line { name, key, isUnion, fields }
  | ["GLOBALS"] =>
    let symbols ← s.body.mapM (readGlobal d.types)
    return { d with globals := symbols.foldl (fun g v => (g.addVariable v).2) d.globals }
  | ["FUNCTION", name, address] =>
    let address ← readAddress line address
    let formals ← s.body.mapM (readFormal d.types)
    return { d with current := some { line, name, address, formals } }
  | ["TABLE", name] =>
    let f ← d.currentFunction line "TABLE"
    return { d with current := some (← readTable f line name s.body) }
  | ["INSTRUCTIONS"] =>
    let f ← d.currentFunction line "INSTRUCTIONS"
    let instructions ← s.body.mapM readInstruction
    return { d with current := some { f with instructions := f.instructions ++ instructions } }
  | _ => .error (.parse line s!"unknown section {Text.quote s.header.string}")

def Section.startsFunction (s : Section) : Bool :=
  match s.header.words with
  | ["FUNCTION", _, _] => true
  | _ => false

/-- Reads sections one after the other, up to the first that cannot be read. A section that starts
a function closes the one before it. -/
def readSections : List Section → Draft → Option Error × Draft
  | [], d => (none, d)
  | s :: rest, d =>
    let d := if s.startsFunction then d.close else d
    match readSection d s with
    | .ok d => readSections rest d
    | .error e => (some e, d)

/-- The program that was read, once its last function is closed. -/
def Draft.program (d : Draft) : ProgramFacts where
  name := d.name
  globals := d.globals
  strings := d.strings
  types := d.types
  functions := d.functions
  rejected := d.rejected

/-- Loads a fact file. -/
def load (text : String) : Except Error ProgramFacts × Log :=
  match readSections (sections text) {} with
  | (some e, d) => (.error e, d.log)
  | (none, d) =>
    let d := d.close
    let d := d.note ⟨.info, "Loaded facts",
      [("program", d.name), ("functions", toString d.functions.length),
        ("rejected", toString d.rejected.length)]⟩
    (.ok d.program, d.log)

end FactLift.FactFile
