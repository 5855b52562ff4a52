import Std.Data.TreeMap

/-! Multimaps: every key has a list of values without repetition, in order of arrival. Keys are
visited in ascending order. -/

namespace FactLift

/-- Keys with lists of values. -/
structure MultiMap (α β : Type) [Ord α] where
  lists : Std.TreeMap α (List β) := ∅

namespace MultiMap

variable {α β : Type} [Ord α] [BEq β]

def empty : MultiMap α β := {}

instance : EmptyCollection (MultiMap α β) := ⟨empty⟩

instance : Inhabited (MultiMap α β) := ⟨empty⟩

/-- The values of a key; none if the key was never added. -/
def get (m : MultiMap α β) (key : α) : List β :=
  m.lists.getD key []

/-- Whether a key was ever added. -/
def contains (m : MultiMap α β) (key : α) : Bool :=
  m.lists.contains key

/-- Appends a value to the list of a key, unless it is there already. -/
def add (m : MultiMap α β) (key : α) (value : β) : MultiMap α β :=
  if (m.get key).contains value then m else ⟨m.lists.insert key (m.get key ++ [value])⟩

/-- Appends values to the list of a key, one after the other. -/
def addAll (m : MultiMap α β) (key : α) (values : List β) : MultiMap α β :=
  values.foldl (fun m value => m.add key value) m

/-- Takes a value out of the list of a key. The key stays, even with an empty list. -/
def remove (m : MultiMap α β) (key : α) (value : β) : MultiMap α β :=
  if m.contains key then ⟨m.lists.insert key ((m.get key).filter (· != value))⟩ else m

def size (m : MultiMap α β) : Nat :=
  m.lists.size

/-- The keys and their lists, in ascending order of the keys. -/
def toList (m : MultiMap α β) : List (α × List β) :=
  m.lists.toList

end MultiMap

end FactLift
