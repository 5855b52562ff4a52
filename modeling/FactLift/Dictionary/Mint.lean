import FactLift.Dictionary.Basic
import FactLift.Sym.Interval
import FactLift.Sym.Op
import FactLift.Text.Hex

/-! Minting: records for new values.

Every function puts one value into the dictionary and gives its index; equal values share one. A
value is described by the indices of its parts, which were minted before. -/

namespace FactLift.Dictionary

open FactLift.Sym

/-- Actions that mint values. -/
abbrev Mint := StateM Dictionary

namespace Mint

/-- Mints a record in a table. -/
def record (name : TableName) (tags : List String) (args : List Int64) : Mint Nat := fun d =>
  d.add name ⟨tags, args⟩

def numbered (name : String) (number : Int64) : Mint Nat := do
  let s ← record .symbols [name] [number]
  record .vars ["v"] [reference s]

/-- A variable that denotes something. -/
def denoting (name : String) (tags : List String) (args : List Int64) : Mint Nat := do
  let meaning ← record .meanings tags args
  numbered name (reference meaning)

def register (name : String) : Mint Nat :=
  denoting name ["r", name] []

def flag (name : String) : Mint Nat :=
  denoting name ["f", name] []

def temporary (name : String) : Mint Nat :=
  numbered name (-1)

def memory (name : String) (base size offset : Nat) : Mint Nat :=
  denoting name ["m"] [reference base, reference size, reference offset]

def fixed (name : String) (value : Nat) : Mint Nat :=
  denoting name ["a"] [reference value]

/-- The local stack frame as a base. -/
def localFrame : Mint Nat :=
  record .bases ["l"] []

def globalBase : Mint Nat :=
  record .bases ["g"] []

def variableBase (v : Nat) : Mint Nat :=
  record .bases ["v"] [reference v]

def unknownBase (description : String) : Mint Nat :=
  record .bases ["u", description] []

def noOffset : Mint Nat :=
  record .offsets ["n"] []

/-- A constant, then a further offset. -/
def constOffset (value : Int64) (sub : Nat) : Mint Nat :=
  record .offsets ["c", toString value.toInt] [reference sub]

/-- A field of a composite, then a further offset. -/
def fieldOffset (name : String) (key sub : Nat) : Mint Nat :=
  record .offsets ["f", name] [reference key, reference sub]

/-- An index, then a further offset. -/
def indexOffset (i sub : Nat) : Mint Nat :=
  record .offsets ["a"] [reference i, reference sub]

/-- An index variable over elements of a size, then a further offset. -/
def indexVarOffset (v elementSize sub : Nat) : Mint Nat :=
  record .offsets ["i"] [reference v, reference elementSize, reference sub]

def initialRegister (register : String) : Mint Nat :=
  record .fixedValues ["ir", register] [0]

/-- The value of a memory location at entry. -/
def initialMemory (v : Nat) : Mint Nat :=
  record .fixedValues ["iv"] [reference v]

def returnValue (callSite : UInt64) (callee : Option String) : Mint Nat :=
  record .fixedValues (["fr", Text.hex callSite.toNat] ++ callee.toList) []

/-- A named expression. -/
def symbolic (name : String) (x : Nat) : Mint Nat :=
  record .fixedValues ["sv", name] [reference x]

def varExpr (v : Nat) : Mint Nat :=
  record .exprs ["v"] [reference v]

def intExpr (value : Int64) : Mint Nat :=
  record .exprs ["c", toString value.toInt] []

def addressExpr (a : UInt64) : Mint Nat :=
  record .exprs ["ga", Text.hex a.toNat] []

def applyExpr (op : Op) (operands : List Nat) : Mint Nat :=
  record .exprs ["x", op.name] (operands.map reference)

def interval (low high : Option Int64) : Mint Nat :=
  record .intervals ["i", Interval.lowText low, Interval.highText high] []

end Mint

end FactLift.Dictionary
