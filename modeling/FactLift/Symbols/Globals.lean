import FactLift.C.Composite
import FactLift.Error
import FactLift.Target
import FactLift.Text.Hex
import Std.Data.TreeMap

/-! The global symbols of a program: composites, type names and variables.

The table only grows. A composite may be registered again if it is the same; a type name or a
variable keeps its first definition. A variable without a type may be given one, once. -/

namespace FactLift

open C

/-- The composites, type names and variables of a program. -/
structure Globals where
  composites : Std.TreeMap Nat Composite := ∅
  typedefs : Std.TreeMap String Ty := ∅
  vars : Std.TreeMap String Symbol := ∅
  /-- The name of the variable registered last at an address. -/
  addresses : Std.TreeMap UInt64 String := ∅

/-- Gives a variable a type, if it has none yet. -/
def C.Symbol.refine (s : Symbol) (t : Ty) : Except Error Symbol :=
  match s.type with
  | none => .ok { s with type := some t }
  | some _ => .error (.typeAlreadyRefined s.name)

namespace Globals

def composite? (g : Globals) (key : Nat) : Option Composite :=
  g.composites[key]?

/-- Registers a composite. Another one under the same key is a conflict. -/
def addComposite (g : Globals) (c : Composite) : Except Error Globals :=
  match g.composite? c.key with
  | none => .ok { g with composites := g.composites.insert c.key c }
  | some c' => if c'.same c then .ok g else .error (.conflictingComposite c.key c.name)

/-- Registers a type name, unless it has a definition. -/
def addTypedef (g : Globals) (name : String) (t : Ty) : Globals :=
  if g.typedefs.contains name then g else { g with typedefs := g.typedefs.insert name t }

def named? (g : Globals) (name : String) : Option Symbol :=
  g.vars[name]?

def at? (g : Globals) (a : UInt64) : Option Symbol := do
  g.named? (← g.addresses[a]?)

/-- Registers a variable, unless there is one of its name, and gives the one that is there. -/
def addVariable (g : Globals) (s : Symbol) : Symbol × Globals :=
  match g.named? s.name with
  | some s' => (s', g)
  | none =>
    let addresses := match s.address with
      | some a => g.addresses.insert a s.name
      | none => g.addresses
    (s, { g with vars := g.vars.insert s.name s, addresses })

/-- Gives the variable with a name a type. -/
def refine (g : Globals) (s : Symbol) (t : Ty) : Except Error Globals := do
  let s ← s.refine t
  return { g with vars := g.vars.insert s.name s }

/-- The variable made up for an address that no variable is known at. -/
def unknownVariable (a : UInt64) : Symbol where
  name := "gv_" ++ Text.hexDigits a.toNat
  address := some a

/-- The variable made up for a function that is only known by name. -/
def unknownFunction (name : String) : Symbol where
  name := name
  type := some (.function (.int .int) none false)

/-! ### Types -/

/-- How many type names are looked through before giving up on a circle of them. -/
def maxTypedefs : Nat := 32

/-- Looks through at most so many type names. -/
def resolveWithin (g : Globals) : Nat → Ty → Ty
  | 0, t => t
  | limit + 1, .named name =>
    match g.typedefs[name]? with
    | some t => g.resolveWithin limit t
    | none => .named name
  | _ + 1, t => t

/-- Looks through type names, up to a type that is none with a definition. -/
def resolve (g : Globals) (t : Ty) : Ty :=
  g.resolveWithin maxTypedefs t

/-- The end of a field: where the next byte after it would be. In a union all fields start at
zero. Ends are words, and a sum that is none is cut. -/
def fieldEnd? (c : Composite) (f : Field) (size : Nat) : Option Nat :=
  if c.isUnion then some size
  else
    match f.offset with
    | some offset =>
      if offset < 0 then none else some ((offset.toInt.toNat + size) % UInt64.size)
    | none => none

/-- The size of an array of so many elements, if it is a word. -/
def arraySize? (length : Nat) (element : Option Nat) : Option Nat := do
  let total := length * (← element)
  if total < UInt64.size then some total else none

/-- Where the last of some fields ends, field by field, up to the first whose size is not known. -/
def fieldsSize (c : Composite) (sizes : Ty → Except Fault (Option Nat)) :
    Nat → List Field → Except Fault (Option Nat)
  | size, [] => return some size
  | size, f :: rest => do
    match (← sizes f.type).bind (fieldEnd? c f) with
    | some fieldEnd => fieldsSize c sizes (max size fieldEnd) rest
    | none => return none

/-- The size of a type in bytes, if it is known, from the sizes of what stands directly inside. -/
def sizeFrom (g : Globals) (sizes : Ty → Except Fault (Option Nat)) (t : Ty) :
    Except Fault (Option Nat) :=
  match g.resolve t with
  | .void | .function _ _ _ | .named _ => return none
  | .int k | .enumeration _ k => return some k.size
  | .float k => return some k.size
  | .pointer _ => return some Target.pointerSize
  | .array element length =>
    match (Ty.array element length).length? with
    | some n => if n < 0 then return none else arraySize? n.toInt.toNat <$> sizes element
    | none => return none
  | .composite key _ =>
    match g.composite? key with
    | some c => fieldsSize c sizes 0 c.fields
    | none => return none

/-- The size of a type, looking into it so deep at most. A type that is deeper is not measured to
the end. -/
def sizeWithin (g : Globals) : Nat → Ty → Except Fault (Option Nat)
  | 0, _ => .error .endless
  | depth + 1, t => g.sizeFrom (g.sizeWithin depth) t

/-- How deep the types of the table are together. Only a type that contains itself is deeper. -/
def nesting (g : Globals) : Nat :=
  let ofComposite (c : Composite) : Nat := c.fields.foldl (fun n f => n + (f.type.depth + 1)) 1
  g.composites.toList.foldl (fun n (_, c) => n + ofComposite c) 0 +
    g.typedefs.toList.foldl (fun n (_, t) => n + (t.depth + 1)) 0

/-- Measures a type: its size in bytes, if it is known. -/
def sizing (g : Globals) (t : Ty) : Except Fault (Option Nat) :=
  g.sizeWithin (t.depth + g.nesting + 1) t

/-- The size of a type in bytes, if it is known. -/
def size? (g : Globals) (t : Ty) : Option Nat :=
  (g.sizing t).toOption.getD none

theorem size?_of_sizing {g : Globals} {t : Ty} {size : Option Nat} (h : g.sizing t = .ok size) :
    g.size? t = size := by
  rw [size?, h]
  rfl

/-- The variable with a name, and how far into it an address lies, if its storage reaches there
from where it starts. -/
def reaching (g : Globals) (a start : UInt64) (name : String) :
    Except Fault (Option (Symbol × Int64)) :=
  match g.named? name with
  | some s =>
    match s.type with
    | some t => do
      match ← g.sizing t with
      | some size =>
        return if (a - start).toNat < size then some (s, (a - start).toInt64) else none
      | none => return none
    | none => return none
  | none => return none

/-- The variables that start below an address, the lowest first. -/
def below (g : Globals) (a : UInt64) : List (UInt64 × String) :=
  g.addresses.toList.filter fun (start, _) => decide (start < a)

/-- Searches for the variable whose storage contains an address, and how far into it the address
lies: the one at the very address, else the lowest below it that reaches so far. -/
def search (g : Globals) (a : UInt64) : Except Fault (Option (Symbol × Int64)) :=
  match g.at? a with
  | some s => return some (s, 0)
  | none => (g.below a).findSomeM? fun (start, name) => g.reaching a start name

/-- The variable whose storage contains an address, and how far into it the address lies. Variables
that are not measured to the end are passed over. -/
def containing? (g : Globals) (a : UInt64) : Option (Symbol × Int64) :=
  match g.at? a with
  | some s => some (s, 0)
  | none =>
    (g.below a).findSome? fun (start, name) => do
      let s ← g.named? name
      let size ← g.size? (← s.type)
      if (a - start).toNat < size then some (s, (a - start).toInt64) else none

end Globals

end FactLift
