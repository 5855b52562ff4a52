import FactLift.Instruction.Facts
import FactLift.Instruction.Opcode
import FactLift.Lift.Instruction
import FactLift.Text.Quoted

/-! What each opcode lifts to.

Operands come from the fact record. The target is the first result variable, or the first variable;
a value is taken in its best form, while its low-level form is the first expression as written. A
second expression is the address that is written to. An instruction that is part of another one, or
whose results are not all available, becomes a `nop`. -/

namespace FactLift

open C

/-- What an instruction lifts to: an instruction, or a statement of its own. -/
inductive Lifted
  | instr (i : Forms Instr)
  | stmt (s : Forms Stmt)

/-- Lifting that may stop. What was done before it stopped remains. -/
abbrev LiftE := ExceptT Error LiftM

namespace LiftM

/-- Records the size of an instruction and is done with it. -/
def sized (size : Nat) (instr : LiftM (Forms Instr)) : LiftM Lifted := do
  let i ← instr
  recordSpan i size
  return .instr i

/-- Says that results of a record are not available. -/
def reportGaps (o : Opcode) (d : Decoded) : LiftM Unit := do
  let (vars, exprs, committed) := d.gaps
  report .errorValuedRecord
    (s!"{o.mnemonic}: error values at vars {Text.bracketed vars}, " ++
      s!"xprs {Text.bracketed exprs}, committed {Text.bracketed committed}")

def liftAssignment (cfg : Config) (r : Record) (d : Decoded) (size : Nat) : LiftE Lifted := do
  let some target := d.target?
    | throw (r.malformed "xdata" "assign without a target variable")
  let some value := d.preferred? cfg 0
    | throw (r.malformed "xdata" "assign without a value")
  sized size (liftAssign target (d.exprs.headD value) value d.exprs[1]?)

/-- The arguments of a call: the result expressions, or the expressions if there are none. -/
def callArguments (d : Decoded) : List Sym.Expr :=
  if d.exprsResult.isEmpty then d.exprs else d.exprsResult.filterMap Fact.value?

/-- The function that is called: the one named as such, or the first string. -/
def calleeName? (d : Decoded) : Option String :=
  d.callTarget.or d.strings.head?

/-- The value of a return in both forms: the returned value if the record has one, else the first
expression in its best form. -/
def returned? (cfg : Config) (d : Decoded) : Option (Forms Sym.Expr) :=
  ((d.returnValue.bind Fact.value?).or (d.preferred? cfg 0)).map fun high =>
    ⟨d.exprs.headD high, high⟩

/-- The condition of a branch: the first of its conditions, or the first expression of a record that
has none. -/
def branchCondition? (r : Record) (d : Decoded) : Except Error (Option Sym.Expr) := do
  match ← InstrFacts.branchConditions { record := r, outcome := some (.ok d) } with
  | some conditions => return conditions.head?
  | none => return d.exprs.head?

theorem branchCondition?_eq (r : Record) (d : Decoded) :
    branchCondition? r d = .ok d.exprs.head? := by
  unfold branchCondition? InstrFacts.branchConditions
  cases r.hasBranchConditions <;> rfl

theorem branchCondition?_bind {α : Type} (r : Record) (d : Decoded)
    (f : Option Sym.Expr → LiftE α) :
    (liftM (branchCondition? r d) : LiftE (Option Sym.Expr)) >>= f = f d.exprs.head? := by
  rw [branchCondition?_eq]
  rfl

/-- A branch to a label, under a condition if there is one. -/
def liftBranch (target : UInt64) (cond : Option Sym.Expr) : LiftM (Forms Stmt) := do
  let jump : Stmt := .ofBody (.goto (addressLabel target))
  match cond with
  | none => return ⟨jump, jump⟩
  | some x =>
    let c ← liftCondition x x
    return c.map fun c => .ofBody (.branch c jump (.ofBody (.block [])) (some target))

/-- Lifts an instruction from its decoded record. -/
def liftOperation (o : Operation) (r : Record) (d : Decoded) (size : Nat) : LiftE Lifted := do
  let site ← read
  if r.isSubsumed then sized size (liftNop "subsumed")
  else if !d.isOk then
    reportGaps o.opcode d
    sized size (liftNop (o.opcode.mnemonic ++ " (unavailable)"))
  else
    note ⟨.trace, "Lifting instruction",
      [("site", Text.hex site.address.toNat), ("opcode", o.opcode.mnemonic), ("key", r.key)]⟩
    match o.opcode with
    | .assign => liftAssignment site.config r d size
    | .call => sized size (liftCall d.target? (calleeName? d) none (callArguments d))
    | .ret => return .stmt (← liftReturn (returned? site.config d))
    | .branch =>
      match o.branchTarget? with
      | some target => return .stmt (← liftBranch target (← branchCondition? r d))
      | none =>
        throw (o.record.malformed "opcode" s!"branch to {(o.record.args.headD 0).toInt}")
    | .nop => sized size (liftNop o.opcode.mnemonic)

end LiftM

end FactLift
