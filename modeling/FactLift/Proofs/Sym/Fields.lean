import FactLift.Proofs.Sym.NormalForm

/-! The fields that a symbolic value names.

A field is named with the key of its composite in a chain of offsets: in the chain itself, or in the
chains inside the variables and expressions that the chain mentions. Simplifying keeps the variables
of an expression, and with them the fields that are named (`Offset.fields_settle`). -/

namespace FactLift.Sym

mutual

/-- The fields that an expression names, each with the key of its composite. -/
def Expr.fields : Expr → List (String × Nat)
  | .const _ => []
  | .var v => v.fields
  | .apply _ args => Expr.fieldsOf args

def Expr.fieldsOf : List Expr → List (String × Nat)
  | [] => []
  | a :: rest => a.fields ++ Expr.fieldsOf rest

def Variable.fields : Variable → List (String × Nat)
  | ⟨_, _, meaning⟩ => meaning.fields

/-- The fields that what a variable denotes names. -/
def Meaning.fields : Meaning → List (String × Nat)
  | .absent | .register _ | .flag _ => []
  | .memory base _ offset => base.fields ++ offset.fields
  | .fixed value => value.fields

/-- The fields that a memory base names. -/
def Base.fields : Base → List (String × Nat)
  | .pointer v => v.fields
  | .localFrame | .allocatedFrame | .realignedFrame | .globals | .unknown _ => []

/-- The fields that a chain of offsets names. -/
def Offset.fields : Offset → List (String × Nat)
  | .none | .unknown => []
  | .const _ sub => sub.fields
  | .field name key sub => (name, key) :: sub.fields
  | .index i sub => i.fields ++ sub.fields
  | .indexVar v _ sub => v.fields ++ sub.fields

def FixedValue.fields : FixedValue → List (String × Nat)
  | .initialRegister _ _ | .returnValue _ _ => []
  | .initialMemory v => v.fields
  | .symbolic _ x => x.fields

end

theorem fieldsOf_eq_flatMap (xs : List Expr) : Expr.fieldsOf xs = xs.flatMap Expr.fields := by
  induction xs with
  | nil => rw [Expr.fieldsOf, List.flatMap_nil]
  | cons a rest ih => rw [Expr.fieldsOf, ih, List.flatMap_cons]

/-- An expression names the fields that its variables do. -/
theorem Expr.fields_eq_vars (x : Expr) : x.fields = x.vars.flatMap Variable.fields := by
  induction x using Expr.operandInduction with
  | const c => rw [Expr.fields, Expr.vars, List.flatMap_nil]
  | var v => rw [Expr.fields, Expr.vars, List.flatMap_singleton]
  | apply op args ih =>
    rw [Expr.fields, Expr.vars, fieldsOf_eq_flatMap, varsOf_eq_flatMap, List.flatMap_assoc]
    exact List.flatMap_congr ih

/-- Simplifying keeps the variables, so it keeps the fields. -/
theorem Expr.fields_simplify (x : Expr) : x.simplify.fields = x.fields := by
  rw [Expr.fields_eq_vars, Expr.fields_eq_vars, vars_simplify]

mutual

theorem Expr.fields_settle : ∀ x : Expr, x.settle.fields = x.fields
  | .const c => by rw [Expr.settle]
  | .var v => by rw [Expr.settle, Expr.fields, Expr.fields, Variable.fields_settle v]
  | .apply op args => by rw [Expr.settle, Expr.fields, Expr.fields, Expr.fieldsOf_settleAll args]

theorem Expr.fieldsOf_settleAll :
    ∀ xs : List Expr, Expr.fieldsOf (Expr.settleAll xs) = Expr.fieldsOf xs
  | [] => by rw [Expr.settleAll]
  | a :: rest => by
    rw [Expr.settleAll, Expr.fieldsOf, Expr.fieldsOf, Expr.fields_settle a,
      Expr.fieldsOf_settleAll rest]

theorem Variable.fields_settle : ∀ v : Variable, v.settle.fields = v.fields
  | ⟨name, number, meaning⟩ => by
    rw [Variable.settle, Variable.fields, Variable.fields, Meaning.fields_settle meaning]

theorem Meaning.fields_settle : ∀ m : Meaning, m.settle.fields = m.fields
  | .absent | .register _ | .flag _ => by rw [Meaning.settle]
  | .memory base size offset => by
    rw [Meaning.settle, Meaning.fields, Meaning.fields, Base.fields_settle base,
      Offset.fields_settle offset]
  | .fixed value => by
    rw [Meaning.settle, Meaning.fields, Meaning.fields, FixedValue.fields_settle value]

theorem Base.fields_settle : ∀ b : Base, b.settle.fields = b.fields
  | .pointer v => by rw [Base.settle, Base.fields, Base.fields, Variable.fields_settle v]
  | .localFrame | .allocatedFrame | .realignedFrame | .globals | .unknown _ => by rw [Base.settle]

/-- Simplifying inside a chain keeps the fields that it names. -/
theorem Offset.fields_settle : ∀ o : Offset, o.settle.fields = o.fields
  | .none | .unknown => by rw [Offset.settle]
  | .const _ sub | .field _ _ sub => by
    rw [Offset.settle, Offset.fields, Offset.fields, Offset.fields_settle sub]
  | .index i sub => by
    rw [Offset.settle, Offset.fields, Offset.fields, Expr.fields_simplify, Expr.fields_settle i,
      Offset.fields_settle sub]
  | .indexVar v _ sub => by
    rw [Offset.settle, Offset.fields, Offset.fields, Variable.fields_settle v,
      Offset.fields_settle sub]

theorem FixedValue.fields_settle : ∀ value : FixedValue, value.settle.fields = value.fields
  | .initialRegister _ _ | .returnValue _ _ => by rw [FixedValue.settle]
  | .initialMemory v => by
    rw [FixedValue.settle, FixedValue.fields, FixedValue.fields, Variable.fields_settle v]
  | .symbolic _ x => by
    rw [FixedValue.settle, FixedValue.fields, FixedValue.fields, Expr.fields_simplify,
      Expr.fields_settle x]

end

end FactLift.Sym
