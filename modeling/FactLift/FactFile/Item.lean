import FactLift.C.Tree
import FactLift.Error
import FactLift.FactFile.Section
import FactLift.Record.Basic
import FactLift.Text.Integer

/-! What the lines of a fact file are made of: numbers, references, records and types.

Types are written as `void`, `int <kind>`, `float <kind>`, `ptr <t>`, `array <t> [<length>]`,
`named <name>`, `comp <key> <name>`, `enum <name> <kind>` or `fun <result> [<name>:<t>]... [...]`,
where `<t>` refers to an earlier type by its number. -/

namespace FactLift.FactFile

open C

def readInt (line : Nat) (word : String) : Except Error Int64 :=
  match Text.parseInt64? word with
  | some v => .ok v
  | none => .error (.parse line s!"not an integer: {Text.quote word}")

def readAddress (line : Nat) (word : String) : Except Error UInt64 := do
  let v ← readInt line word
  if v < 0 then .error (.parse line s!"not an address: {Text.quote word}")
  else return v.toUInt64

def readIndex (line : Nat) (word : String) : Except Error Nat := do
  let v ← readInt line word
  if v < 0 then .error (.parse line s!"not an index: {Text.quote word}")
  else return v.toInt.toNat

/-- The pieces of a list with commas, without the white space around them. -/
def listed (cs : List Char) : List String :=
  match Text.trim cs with
  | [] => []
  | cs => (Text.splitBy (· == ',') cs).map fun piece => String.ofList (Text.trim piece)

/-- The content of a record, `tags | arguments`. -/
def readContent (line : Nat) (cs : List Char) : Except Error Content :=
  match Text.splitOnce '|' cs with
  | none =>
    .error (.parse line ("expected `tags | args`, got " ++ Text.quote (String.ofList cs)))
  | some (tags, args) => do
    return ⟨listed tags, ← (listed args).mapM (readInt line)⟩

def readTypeRef (types : List Ty) (line : Nat) (word : String) : Except Error Ty := do
  let index ← readIndex line word
  match index with
  | 0 => .error (.parse line "no type 0")
  | n + 1 =>
    match types[n]? with
    | some t => return t
    | none => .error (.parse line s!"no type {index}")

def readIntKind (line : Nat) (word : String) : Except Error IntKind :=
  match IntKind.ofCode? word with
  | some k => .ok k
  | none => .error (.parse line s!"unknown int kind {Text.quote word}")

def readFloatKind (line : Nat) (word : String) : Except Error FloatKind :=
  match FloatKind.ofCode? word with
  | some k => .ok k
  | none => .error (.parse line s!"unknown float kind {Text.quote word}")

/-- A parameter of a function type, `name:type`. -/
def readParam (types : List Ty) (line : Nat) (word : String) : Except Error Param :=
  match Text.splitOnce ':' word.toList with
  | none => .error (.parse line ("expected `name:type`, got " ++ Text.quote word))
  | some (name, t) => do
    return ⟨String.ofList name, ← readTypeRef types line (String.ofList t)⟩

def readType (types : List Ty) (line : Nat) (words : List String) : Except Error Ty := do
  match words with
  | ["void"] => return .void
  | ["int", k] => return .int (← readIntKind line k)
  | ["float", k] => return .float (← readFloatKind line k)
  | ["ptr", t] => return .pointer (← readTypeRef types line t)
  | ["array", t] => return .array (← readTypeRef types line t) none
  | ["array", t, length] =>
    let n ← readInt line length
    return .array (← readTypeRef types line t) (some (.int n .int))
  | ["named", name] => return .named name
  | ["comp", key, name] => return .composite (← readIndex line key) name
  | ["enum", name, k] => return .enumeration name (← readIntKind line k)
  | "fun" :: result :: rest =>
    let variadic := rest.getLast? == some "..."
    let params ← (if variadic then rest.dropLast else rest).mapM (readParam types line)
    return .function (← readTypeRef types line result) (some params) variadic
  | _ => .error (.parse line ("unknown type " ++ Text.quote (" ".intercalate words)))

end FactLift.FactFile
