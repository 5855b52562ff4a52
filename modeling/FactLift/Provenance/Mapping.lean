import FactLift.Diagnostic
import FactLift.MultiMap

/-! Which high-level node each low-level node became.

A low-level node has at most one high-level counterpart; a high-level node may stand for several
low-level ones. -/

namespace FactLift

/-- The kinds of nodes that are mapped. -/
inductive NodeKind
  | instruction | expression | lvalue
deriving DecidableEq, Repr

def NodeKind.name : NodeKind → String
  | instruction => "instruction"
  | expression => "expression"
  | lvalue => "lvalue"

/-- A mapping from low-level to high-level nodes. -/
structure NodeMapping where
  highOf : Std.TreeMap Nat Nat := ∅
  lowsOf : MultiMap Nat Nat := ∅

namespace NodeMapping

/-- The high-level node of a low-level one. -/
def high? (m : NodeMapping) (low : Nat) : Option Nat :=
  m.highOf[low]?

/-- The low-level nodes of a high-level one. -/
def lows (m : NodeMapping) (high : Nat) : List Nat :=
  m.lowsOf.get high

/-- The number of low-level nodes. -/
def size (m : NodeMapping) : Nat :=
  m.highOf.size

/-- Low-level nodes with their high-level ones, in ascending order. -/
def toList (m : NodeMapping) : List (Nat × Nat) :=
  m.highOf.toList

/-- Says that a low-level node was mapped elsewhere before. -/
def overwritten (kind : NodeKind) (low before now : Nat) (site : Option UInt64) : Diagnostic where
  site := site
  kind := .provenanceOverwrite
  message := s!"{kind.name} {low} was mapped to {before}, now mapped to {now}"

/-- Maps a low-level node to a high-level one. A mapping elsewhere is replaced and reported. -/
def register (m : NodeMapping) (kind : NodeKind) (low high : Nat) (site : Option UInt64) :
    NodeMapping × Option Diagnostic :=
  match m.high? low with
  | none => (⟨m.highOf.insert low high, m.lowsOf.add high low⟩, none)
  | some before =>
    if before = high then (m, none)
    else
      (⟨m.highOf.insert low high, (m.lowsOf.remove before low).add high low⟩,
        some (overwritten kind low before high site))

/-- Every node of the mapping once, in ascending order. -/
def nodes (m : NodeMapping) : List Nat :=
  let marked : Std.TreeMap Nat Unit :=
    m.toList.foldl (fun s (low, high) => (s.insert low ()).insert high ()) ∅
  marked.keys

end NodeMapping

end FactLift
