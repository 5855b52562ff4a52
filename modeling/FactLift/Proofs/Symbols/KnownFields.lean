import FactLift.Proofs.Symbols.Displacement

/-! Fields that are in the table.

Offsets go through fields of composites, each named with the key of its composite. A field that is
found for a byte offset is one of a composite in the table whose layout is complete
(`Globals.HasField`), and a path into a type goes through no others
(`Globals.navigate_hasField`). -/

namespace FactLift

open C

/-- A field of a composite in the table, whose layout is complete. -/
def Globals.HasField (g : Globals) (field : String × Nat) : Prop :=
  ∃ c, g.composite? field.2 = some c ∧ c.isComplete ∧ ∃ f ∈ c.fields, f.name = field.1

namespace C

mutual

/-- The fields that an expression goes through, each with the key of its composite. -/
def Expr.fieldSteps : Expr → List (String × Nat)
  | .int _ _ | .float _ _ | .string _ _ | .sizeOf _ | .unresolved _ => []
  | .globalAddress _ e | .cast _ e | .unary _ e => e.fieldSteps
  | .lval l | .addressOf l => l.fieldSteps
  | .binary _ a b => a.fieldSteps ++ b.fieldSteps
  | .conditional c a b => c.fieldSteps ++ a.fieldSteps ++ b.fieldSteps

/-- The fields that an lvalue goes through. -/
def Lval.fieldSteps : Lval → List (String × Nat)
  | .var _ offset => offset.fieldSteps
  | .mem e offset => e.fieldSteps ++ offset.fieldSteps

/-- The fields that an offset goes through, those inside its indices included. -/
def Offset.fieldSteps : Offset → List (String × Nat)
  | .none | .unresolved _ => []
  | .field name key sub => (name, key) :: sub.fieldSteps
  | .index i sub => i.fieldSteps ++ sub.fieldSteps

end

@[simp] theorem fieldSteps_ofSymbol (s : Symbol) : (Expr.ofSymbol s).fieldSteps = [] := by
  simp [Expr.ofSymbol, Expr.fieldSteps, Lval.fieldSteps, Offset.fieldSteps]

theorem Composite.isComplete_of_fieldAt? {c : Composite} {offset : Int64} {found : Field × Int64}
    (h : c.fieldAt? offset = some found) : c.isComplete := by
  unfold fieldAt? at h
  split at h
  · cases h
  next hcomplete => simpa using (not_or.mp hcomplete).2

end C

/-! ### Fields that are looked up -/

namespace Globals

variable {g : Globals} {key : Nat} {c : Composite} {f : Field} {bytes rest : Int64}

/-- A field that is found by its offset is in the table. -/
theorem hasField_of_fieldAt? (hc : g.composite? key = some c)
    (hf : c.fieldAt? bytes = some (f, rest)) : g.HasField (f.name, key) :=
  ⟨c, hc, Composite.isComplete_of_fieldAt? hf, f, (Composite.fieldAt?_eq_some hf).1, rfl⟩

end Globals

/-- The field that a step into a type goes through, if it is not an index. -/
def Step.field? : Step → Option (String × Nat)
  | .field name key => some (name, key)
  | .index _ => none

/-- The fields that a path goes through. -/
def Path.fields (path : Path) : List (String × Nat) :=
  path.steps.filterMap Step.field?

theorem Path.fieldSteps_wrap (path : Path) (inner : Offset) :
    (path.wrap inner).fieldSteps = path.fields ++ inner.fieldSteps := by
  rw [Path.wrap, Path.fields]
  induction path.steps with
  | nil => rfl
  | cons step steps ih =>
    cases step with
    | field name key => simp [Step.wrap, Step.field?, Offset.fieldSteps, ih]
    | index i =>
      rw [List.filterMap_cons_none rfl, ← ih]
      simp [Step.wrap, Offset.fieldSteps, Expr.fieldSteps]

@[simp] theorem Path.fields_landed (t : Ty) : (Path.landed t).fields = [] := rfl

@[simp] theorem Path.fields_stuck (reason : String) : (Path.stuck reason).fields = [] := rfl

@[simp] theorem Path.fields_after (step : Step) (rest : Path) :
    (Path.after step rest).fields = step.field?.toList ++ rest.fields := by
  cases step <;> rfl

namespace Globals

variable {g : Globals} {bytes : Int64}

/-- The fields on the path for a byte offset are in the table. -/
theorem Traverses.hasField {host : Ty} {path : Path} (h : g.Traverses host bytes path) :
    ∀ field ∈ path.fields, g.HasField field := by
  induction h with
  | stuck | landed => simp
  | through _ _ ih => exact ih
  | field hc hf _ ih =>
    rw [Path.fields_after]
    exact List.forall_mem_append.mpr ⟨by simpa [Step.field?] using hasField_of_fieldAt? hc hf, ih⟩
  | element _ _ ih =>
    rw [Path.fields_after]
    exact List.forall_mem_append.mpr ⟨by simp [Step.field?], ih⟩

theorem navigate_hasField (host : Ty) (bytes : Int64) :
    ∀ field ∈ (g.navigate host bytes).fields, g.HasField field :=
  (navigate_traverses host bytes).hasField

end Globals

end FactLift
