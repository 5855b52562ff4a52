import FactLift.Dictionary.Decode
import Std.Data.TreeMap

/-! Dataflow facts: where the definitions that reach a use stand, and where a definition is used.

The facts come with the program; nothing here computes them. A location is an address or another
marker such as `init` or `exit`. -/

namespace FactLift

/-- What a dataflow fact says about its locations. -/
inductive FlowKind
  /-- Definitions there may reach here. -/
  | reachingDef
  /-- Definitions of flags there may reach here. -/
  | flagReachingDef
  /-- The definition made here is used there. -/
  | defUse
  /-- The definition made here is used there, in the high-level code. -/
  | defUseHigh
deriving DecidableEq, Repr

namespace FlowKind

def all : List FlowKind :=
  [reachingDef, flagReachingDef, defUse, defUseHigh]

/-- The letter of the kind in records and keys. -/
def letter : FlowKind → Char
  | reachingDef => 'r'
  | flagReachingDef => 'f'
  | defUse => 'd'
  | defUseHigh => 'h'

def ofLetter? (letter : Char) : Option FlowKind :=
  all.find? fun kind => kind.letter == letter

def name : FlowKind → String
  | reachingDef => "RD"
  | flagReachingDef => "FRD"
  | defUse => "DU"
  | defUseHigh => "DU-H"

end FlowKind

/-- A fact about one variable. -/
structure Flow where
  kind : FlowKind
  var : Sym.Variable
  locations : List String
deriving BEq

namespace Flow

def addresses (f : Flow) : List UInt64 :=
  f.locations.filterMap Text.parseAddress?

/-- The variable and its locations. -/
def summary (f : Flow) : String :=
  f.var.name ++ ": [" ++ ", ".intercalate f.locations ++ "]"

def text (f : Flow) : String :=
  f.kind.name ++ ": " ++ f.summary

end Flow

/-- Dataflow facts by index. -/
structure FlowStore where
  facts : Std.TreeMap Nat Flow := ∅

namespace FlowStore

/-- The name of the table that the facts come in. -/
def tableName : String := "varinv"

def get? (s : FlowStore) (index : Nat) : Option Flow :=
  s.facts[index]?

def insert (s : FlowStore) (index : Nat) (f : Flow) : FlowStore :=
  ⟨s.facts.insert index f⟩

/-- The fact of a record: its kind and locations are tags, its variable the argument. -/
def decodeRecord (table : String) (d : Dictionary) (r : Record) : Except Error Flow := do
  r.expect table 1 1
  let var ← d.decodeVariable (← r.argIndex table 0)
  match r.kind.toList with
  | [letter] =>
    match FlowKind.ofLetter? letter with
    | some kind => return ⟨kind, var, r.tags.drop 1⟩
    | none => .error (r.malformed table s!"unknown fact kind {Text.quote r.kind}")
  | _ => .error (r.malformed table s!"unknown fact kind {Text.quote r.kind}")

/-- The facts of a table, at the indices of their records. -/
def decode (t : Table) (d : Dictionary) : Except Error FlowStore :=
  t.records.foldlM (fun s r => return s.insert r.index (← decodeRecord t.name d r)) {}

end FlowStore

end FactLift
