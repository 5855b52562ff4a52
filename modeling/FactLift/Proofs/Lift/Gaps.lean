import FactLift.Proofs.Lift.Steps
import FactLift.Proofs.Sym.Lookups
import FactLift.Proofs.Sym.NormalForm

/-! Locations that low-level forms leave open.

A low-level form goes to frame slots and global addresses at constant distances only. Any other
location in those regions, and any in a region that is not known, it leaves open without a report,
because the high-level form of the same variable is to report it. `Gap` tells apart the locations
that both forms leave open and those that may be open in the low-level form alone: where a chain of
offsets starts with a constant, the high-level form goes to that address and on from there.

The gaps of a value are those that its low-level form comes upon. Simplifying changes none of them. -/

namespace FactLift.Sym

/-- A location that the low-level form leaves open without a report. -/
inductive Gap where
  /-- The high-level form has a placeholder there as well. -/
  | shared
  /-- The high-level form may have none. -/
  | lowOnly
deriving DecidableEq

/-- Whether a chain of offsets ends where nothing is known. -/
def Offset.endsUnknown : Offset → Bool
  | .none => false
  | .unknown => true
  | .const _ sub | .field _ _ sub | .index _ sub | .indexVar _ _ sub => sub.endsUnknown

/-- Whether low-level forms have a place at an offset from a base. -/
def Base.placesLow : Base → Offset → Bool
  | .pointer _, _ => true
  | .globals, o | .localFrame, o => o.constant?.isSome
  | .allocatedFrame, _ | .realignedFrame, _ | .unknown _, _ => false

/-- Whether high-level forms have a place for where an offset from a base starts. -/
def Base.placesHigh : Base → Offset → Bool
  | .pointer _, _ | .globals, .const .. | .localFrame, .const .. | .localFrame, .none => true
  | _, _ => false

/-- The gap at an offset from a base. -/
def Base.gap? (base : Base) (o : Offset) : Option Gap :=
  if base.placesLow o then none
  else if base.placesHigh o && !o.endsUnknown then some .lowOnly
  else some .shared

mutual

/-- The gaps of an expression. What stands below an operator that C has no counterpart for is
reported. -/
def Expr.gaps : Expr → List Gap
  | .const _ => []
  | .var v => v.gaps
  | .apply op args => if op.isExtraction then [] else Expr.gapsOf args

def Expr.gapsOf : List Expr → List Gap
  | [] => []
  | a :: rest => a.gaps ++ Expr.gapsOf rest

/-- The gaps of a use of a variable. The value of a temporary is read by the low-level form only. -/
def Variable.gaps : Variable → List Gap
  | ⟨_, number, .fixed value⟩ =>
    if number == -1 then value.gaps.map fun _ => .lowOnly else value.gaps
  | ⟨_, number, meaning⟩ => meaning.placeGaps (number == -1)

/-- The gaps of a location, by what it is denoted by. A temporary has none. -/
def Meaning.placeGaps (temporary : Bool) : Meaning → List Gap
  | .memory base _ o => if temporary then [] else base.gaps o
  | .absent | .register _ | .flag _ | .fixed _ => []

/-- The gaps at an offset from a base. That the distance from a pointer is not constant is
reported. -/
def Base.gaps (o : Offset) : Base → List Gap
  | .pointer v => if o.constant?.isSome then v.gaps else []
  | base => (base.gap? o).toList

def FixedValue.gaps : FixedValue → List Gap
  | .initialMemory ⟨_, number, meaning⟩ => meaning.placeGaps (number == -1)
  | .symbolic _ x => x.gaps
  | .initialRegister .. | .returnValue .. => []

end

def Variable.placeGaps (v : Variable) : List Gap :=
  v.meaning.placeGaps v.isTemporary

/-- Whether the high-level form of a variable has a place for it, so that no hint is needed. -/
def Variable.placesHigh (v : Variable) : Bool :=
  v.memory?.any fun (base, _, o) => base.placesHigh o

/-- Only a piece of memory has gaps as a location, and no temporary has. -/
theorem Meaning.mem_placeGaps {gap : Gap} {temporary : Bool} {m : Meaning} :
    gap ∈ m.placeGaps temporary ↔
      temporary = false ∧ ∃ base size o, m = .memory base size o ∧ gap ∈ base.gaps o := by
  cases m <;> cases temporary <;> simp [placeGaps]

@[simp] theorem Base.gap?_eq_none {base : Base} {o : Offset} :
    base.gap? o = none ↔ base.placesLow o = true := by
  unfold gap?
  split
  next h => simp [h]
  next h => split <;> simpa using h

theorem Base.gap?_eq_shared {base : Base} {o : Offset} :
    base.gap? o = some .shared ↔
      base.placesLow o = false ∧ (base.placesHigh o = false ∨ o.endsUnknown = true) := by
  unfold gap?
  cases base.placesLow o <;> cases base.placesHigh o <;> cases o.endsUnknown <;> decide

/-! ### Simplifying -/

theorem Offset.endsUnknown_settle : ∀ o : Offset, o.settle.endsUnknown = o.endsUnknown
  | .unknown | .none => by simp only [settle]
  | .const _ sub | .field _ _ sub | .index _ sub | .indexVar _ _ sub => by
    simp only [settle, endsUnknown, endsUnknown_settle sub]

theorem Base.placesLow_settle (base : Base) (o : Offset) :
    base.settle.placesLow o.settle = base.placesLow o := by
  cases base <;> simp only [settle, placesLow, constant?_settle]

theorem Base.placesHigh_settle (base : Base) (o : Offset) :
    base.settle.placesHigh o.settle = base.placesHigh o := by
  cases base <;> cases o <;> simp only [settle, Offset.settle, placesHigh]

theorem Base.gap?_settle (base : Base) (o : Offset) :
    base.settle.gap? o.settle = base.gap? o := by
  rw [gap?, gap?, placesLow_settle, placesHigh_settle, Offset.endsUnknown_settle]

theorem Variable.stackOffset?_settle (v : Variable) : v.settle.stackOffset? = v.stackOffset? := by
  rcases v with ⟨name, number, _ | _ | _ | ⟨base, size, o⟩ | _⟩
  case memory =>
    cases base <;> simp only [settle, Meaning.settle, Base.settle, stackOffset?, constant?_settle]
  all_goals simp only [settle, Meaning.settle, stackOffset?]

theorem Variable.isStackBase_settle (v : Variable) : v.settle.isStackBase = v.isStackBase := by
  rcases v with ⟨name, number, _ | _ | _ | _ | value⟩
  case fixed =>
    cases value <;>
      simp only [settle, Meaning.settle, FixedValue.settle, isStackBase, initialRegister?]
  all_goals simp only [settle, Meaning.settle, isStackBase, initialRegister?]

/-- Simplifying leaves every variable in its place, with its own expressions simplified. -/
theorem vars_simplify_settle (x : Expr) : x.settle.simplify.vars = x.vars.map Variable.settle := by
  induction x using Expr.operandInduction with
  | const c => rw [Expr.settle, Expr.simplify, Expr.vars, List.map_nil]
  | var v => rw [Expr.settle, Expr.simplify, Expr.vars, Expr.vars, List.map_singleton]
  | apply op args ih =>
    rw [Expr.settle, Expr.simplify, vars_simplifyTop, simplifyAll_eq_map, settleAll_eq_map,
      Expr.vars, Expr.vars, varsOf_eq_flatMap, varsOf_eq_flatMap, List.map_map, List.flatMap_map,
      List.map_flatMap]
    exact List.flatMap_congr ih

/-! ### The frame -/

theorem Variable.isStackBase_of_gap {v : Variable} {gap : Gap} (h : gap ∈ v.gaps) :
    v.isStackBase = false := by
  rcases v with ⟨name, number, _ | _ | _ | _ | value⟩
  case fixed =>
    cases value with
    | initialRegister => simp [gaps, FixedValue.gaps] at h
    | _ => rfl
  all_goals rfl

/-- A gap in the frame is not at a constant offset. -/
theorem stackOffset?_of_gap {base : Base} {o : Offset} {gap : Gap} (name : String) (number : Int64)
    (size : Nat) (h : gap ∈ base.gaps o) :
    (⟨name, number, .memory base size o⟩ : Variable).stackOffset? = none := by
  cases base with
  | localFrame =>
    simp only [Base.gaps, Option.mem_toList] at h
    have hlow : Base.localFrame.placesLow o ≠ true := by
      rw [ne_eq, ← Base.gap?_eq_none, h]
      exact Option.some_ne_none gap
    simpa [Base.placesLow, Variable.stackOffset?] using hlow
  | _ => rfl

theorem isStackBase_of_stackOffset? {x : Expr} {offset : Int64} (h : x.stackOffset? = some offset)
    {v : Variable} (hv : v ∈ x.vars) : v.isStackBase = true := by
  unfold Expr.stackOffset? at h
  split at h
  next u =>
    obtain rfl : v = u := by simpa [Expr.vars] using hv
    exact (Option.ite_none_right_eq_some.mp h).1
  next u c =>
    obtain rfl : v = u := by simpa [Expr.vars, Expr.varsOf] using hv
    exact (Option.ite_none_right_eq_some.mp h).1
  next u c =>
    obtain rfl : v = u := by simpa [Expr.vars, Expr.varsOf] using hv
    exact (Option.ite_none_right_eq_some.mp h).1
  next => cases h

end FactLift.Sym
