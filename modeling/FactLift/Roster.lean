import Std.Data.TreeMap

/-! Rosters: values in order of arrival, each to be found at its first position.

A roster keeps its values in order, and beside them the first position of each, which is what a
lookup asks for. A value that is appended again takes a position of its own, one that is inserted
again takes none, and either way it stays where it was found before. -/

namespace FactLift

namespace Roster

variable {α : Type} [Ord α]

/-- The positions that values get in order of arrival: the first one counts. -/
def firstPositions (items : Array α) : Std.TreeMap α Nat :=
  items.toList.zipIdx.foldl (fun positions (a, position) => positions.insertIfNew a position) ∅

theorem firstPositions_push (items : Array α) (a : α) :
    firstPositions (items.push a) = (firstPositions items).insertIfNew a items.size := by
  simp [firstPositions, List.zipIdx_append]

theorem insert_eq_insertIfNew [Std.TransOrd α] {positions : Std.TreeMap α Nat} {a : α}
    (h : positions[a]? = none) (position : Nat) :
    positions.insert a position = positions.insertIfNew a position := by
  have hnew : positions.inner.inner.contains a = false := by
    have hcontains : positions.contains a = positions[a]?.isSome :=
      Std.TreeMap.contains_eq_isSome_getElem?
    rwa [h] at hcontains
  simp [Std.TreeMap.insert, Std.TreeMap.insertIfNew, Std.DTreeMap.insert, Std.DTreeMap.insertIfNew,
    Std.DTreeMap.Internal.Impl.insertIfNew, hnew]

end Roster

/-- Values in order of arrival, with the position at which each is to be found. -/
structure Roster (α : Type) [Ord α] where
  items : Array α
  positions : Std.TreeMap α Nat
  consistent : positions = Roster.firstPositions items

namespace Roster

variable {α : Type} [Ord α]

def empty : Roster α where
  items := #[]
  positions := ∅
  consistent := rfl

instance : EmptyCollection (Roster α) := ⟨empty⟩

@[simp] theorem items_empty : (∅ : Roster α).items = #[] := rfl

/-- The first position of a value. -/
def find? (r : Roster α) (a : α) : Option Nat :=
  r.positions[a]?

/-- Appends a value, even if it is there already. -/
def push (r : Roster α) (a : α) : Roster α where
  items := r.items.push a
  positions := r.positions.insertIfNew a r.items.size
  consistent := by rw [firstPositions_push, r.consistent]

/-- Appends a value unless it is there already; the position is that of its first arrival. -/
def insert [Std.TransOrd α] (r : Roster α) (a : α) : Nat × Roster α :=
  match h : r.find? a with
  | some position => (position, r)
  | none =>
    (r.items.size,
      { items := r.items.push a
        positions := r.positions.insert a r.items.size
        consistent := by rw [insert_eq_insertIfNew h, firstPositions_push, r.consistent] })

def get? (r : Roster α) (position : Nat) : Option α :=
  r.items[position]?

def size (r : Roster α) : Nat :=
  r.items.size

/-- The values in order of arrival. -/
def toList (r : Roster α) : List α :=
  r.items.toList

end Roster

end FactLift
