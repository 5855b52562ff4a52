import FactLift.C.Same

/-! Structures and unions.

The layout of a composite is complete when every field has an offset. Only then are fields found by
offset: the one that starts last at or before it, and of several that start there the one declared
first. -/

namespace FactLift.C

/-- A field of a composite. -/
structure Field where
  name : String
  type : Ty
  offset : Option Int64

/-- A structure or union, under its key. -/
structure Composite where
  name : String
  key : Nat
  isUnion : Bool
  fields : List Field

def Field.same (f f' : Field) : Bool :=
  f.name == f'.name && f.type.same f'.type && f.offset == f'.offset

namespace Composite

def same (c c' : Composite) : Bool :=
  c.name == c'.name && c.key == c'.key && c.isUnion == c'.isUnion &&
    c.fields.length == c'.fields.length && (c.fields.zip c'.fields).all fun (f, f') => f.same f'

/-- Whether every field has an offset. -/
def isComplete (c : Composite) : Bool :=
  c.fields.all fun f => f.offset.isSome

def field? (c : Composite) (name : String) : Option Field :=
  c.fields.find? fun f => f.name == name

/-- Puts a field into a list ordered by offset, unless one with its offset is there. -/
def place (start : Int64) (f : Field) : List (Int64 × Field) → List (Int64 × Field)
  | [] => [(start, f)]
  | (start', f') :: rest =>
    if start < start' then (start, f) :: (start', f') :: rest
    else if start = start' then (start', f') :: rest
    else (start', f') :: place start f rest

/-- The fields by offset, ascending, each offset once. -/
def layout (c : Composite) : List (Int64 × Field) :=
  c.fields.foldl
    (fun placed f =>
      match f.offset with
      | some start => place start f placed
      | none => placed)
    []

/-- The field that an offset falls into, and how far into it. -/
def fieldAt? (c : Composite) (offset : Int64) : Option (Field × Int64) :=
  if offset < 0 ∨ ¬ c.isComplete then none
  else
    ((c.layout.takeWhile fun (start, _) => decide (start ≤ offset)).getLast?).map
      fun (start, f) => (f, offset - start)

end Composite

end FactLift.C
