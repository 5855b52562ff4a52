import FactLift.Symbols.Globals
import FactLift.Word

/-! Following a byte offset through a type.

A path goes through fields of composites and elements of arrays. It lands on a type, or gets stuck
for a reason. From a field it goes on into one field of an inner composite and no further, or into
the elements of an array. The elements have to be measured, and the offset is divided by their size
as a signed word; both can end in a fault. -/

namespace FactLift

open C

/-- One step into a type. -/
inductive Step
  | field (name : String) (key : Nat)
  | index (i : Int64)
deriving DecidableEq, Repr

/-- Steps into a type, and where they lead. -/
structure Path where
  steps : List Step
  landing : Except String Ty

namespace Path

/-- No step: the path is where it should be. -/
def landed (t : Ty) : Path := ⟨[], .ok t⟩

/-- No step: the path cannot go on. -/
def stuck (reason : String) : Path := ⟨[], .error reason⟩

/-- A step, then the rest of the path. -/
def after (step : Step) (rest : Path) : Path :=
  ⟨step :: rest.steps, rest.landing⟩

end Path

def Step.wrap (step : Step) (inner : Offset) : Offset :=
  match step with
  | .field name key => .field name key inner
  | .index i => .index (.int i .int) inner

/-- Steps in front of an offset. -/
def Path.wrap (path : Path) (inner : Offset) : Offset :=
  path.steps.foldr Step.wrap inner

namespace Globals

/-- The size of array elements, if it is known and not zero. -/
def elementSize? (g : Globals) (element : Ty) : Option Nat :=
  (g.size? element).filter (0 < ·)

/-- The path into a field at a distance from its start. Inside a composite it has to end at the
start of a field. -/
def intoField (g : Globals) (f : Field) (distance : Int64)
    (intoArray : Ty → Except Fault Path) : Except Fault Path :=
  match g.resolve f.type with
  | .composite key _ =>
    match (g.composite? key).bind fun c => c.fieldAt? distance with
    | some (inner, rest) =>
      if rest = 0 then return .after (.field inner.name key) (.landed inner.type)
      else return .stuck s!"residual offset {rest.toInt} into {f.name}.{inner.name}"
    | none => return .stuck s!"no field at offset {distance.toInt} in {f.name}"
  | .array element length => intoArray (.array element length)
  | _ => return .stuck s!"residual offset {distance.toInt} into scalar field {f.name}"

/-- The path for a byte offset, from the paths into what stands inside. -/
def navigateFrom (g : Globals) (paths : Ty → Int64 → Except Fault Path) (host : Ty)
    (bytes : Int64) : Except Fault Path :=
  match g.resolve host with
  | .composite key name =>
    match g.composite? key with
    | none => return .stuck s!"no definition of {name}"
    | some c =>
      if ¬ c.isComplete then return .stuck s!"{c.name} has no complete field layout"
      else
        match c.fieldAt? bytes with
        | none => return .stuck s!"no field of {c.name} at offset {bytes.toInt}"
        | some (f, rest) =>
          Path.after (.field f.name key) <$>
            if rest = 0 then return .landed f.type
            else g.intoField f rest fun t => paths t rest
  | .array element _ => do
    match (← g.sizing element).filter (0 < ·) with
    | none => return .stuck "array of elements of unknown size"
    | some size =>
      let unit := Int64.ofNat size
      if overflows bytes unit then .error .quotient
      else
        let rest := Int64.ofInt (bytes.toInt % unit.toInt)
        Path.after (.index (Int64.ofInt (bytes.toInt / unit.toInt))) <$>
          if rest = 0 then return .landed element else paths element rest
  | t =>
    if bytes = 0 then return .landed t else return .stuck s!"offset {bytes.toInt} into a scalar"

/-- The path for a byte offset, looking into the type so deep at most. -/
def navigateWithin (g : Globals) : Nat → Ty → Int64 → Except Fault Path
  | 0, _, _ => .error .endless
  | depth + 1, host, bytes => g.navigateFrom (g.navigateWithin depth) host bytes

/-- Follows a byte offset into a type. The first elements on the way stand two types deep at most;
from there on the path goes no deeper than measuring them does. -/
def navigation (g : Globals) (host : Ty) (bytes : Int64) : Except Fault Path :=
  g.navigateWithin (host.depth + g.nesting + 3) host bytes

/-- The path for a byte offset into a type; there is none where following it ends in a fault. -/
def navigate (g : Globals) (host : Ty) (bytes : Int64) : Path :=
  (g.navigation host bytes).toOption.getD (.stuck "no path")

end Globals

end FactLift
