import FactLift.Record.Basic
import FactLift.Roster

/-! Tables of records.

A table hands out indices from one upwards and never takes one back. Records that are minted share
an index if they have the same content; records that are loaded come with their index, in order, and
keep it even if they repeat an earlier one. -/

namespace FactLift

/-- A table of records. -/
structure Table where
  name : String
  entries : Roster Content := ∅

namespace Table

def size (t : Table) : Nat :=
  t.entries.size

/-- The index of the first record with a content. -/
def find? (t : Table) (content : Content) : Option Nat :=
  (t.entries.find? content).map (· + 1)

/-- Mints a record: the index it has already, or the next one. -/
def add (t : Table) (content : Content) : Nat × Table :=
  let (position, entries) := t.entries.insert content
  (position + 1, { t with entries })

/-- Loads a record at its index, which has to be the next one. -/
def insertAt (t : Table) (index : Nat) (content : Content) : Except Error Table :=
  let next := t.size + 1
  if index = next then .ok { t with entries := t.entries.push content }
  else
    .error (.malformed t.name index
      s!"records must be loaded in order (expected index {next})")

def get (t : Table) (index : Nat) : Except Error Record :=
  match index with
  | 0 => .error (.indexOutOfRange t.name 0)
  | position + 1 =>
    match t.entries.get? position with
    | some content => .ok ⟨index, content⟩
    | none => .error (.indexOutOfRange t.name index)

def records (t : Table) : List Record :=
  t.entries.toList.zipIdx.map fun (content, position) => ⟨position + 1, content⟩

end Table

end FactLift
