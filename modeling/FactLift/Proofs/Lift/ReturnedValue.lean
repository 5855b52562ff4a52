import FactLift.Lift.Operation
import FactLift.Proofs.C.Placeholder
import FactLift.Proofs.Instruction.ErrorMarks

/-! Returned values that are not available.

A returned value may be marked as not available, and the record is in order all the same. The return
is then lifted as if the record had no returned value: the first expression takes its place, and
nothing is reported about it (`return_of_failed_value`). -/

namespace FactLift

open C

/-- A returned value that is marked as not available is decoded as such. -/
theorem returnValue_of_mark {cx : DecodeContext} {r : Record} {form : KeyForm}
    {letters : List Char} {d : Decoded} (hkey : r.key.toList = form.mark ++ letters)
    (hd : decodeRecord cx r = .ok d) (htag : r.hasReturnValue = true)
    (hmark : r.args[r.returnPosition letters.length]? = some (-2)) :
    d.returnValue = some .failed := by
  obtain ⟨-, entries, t, -, ht, -, -, rfl⟩ := (decodeRecord_eq_ok (letters?_eq hkey)).mp hd
  have hvalue := ht.returnValue
  have hraw : r.argAt (r.returnPosition letters.length) = -2 := by
    rw [Record.argAt, List.getD_eq_getElem?_getD, hmark, Option.getD_some]
  rw [Tagged, if_pos htag, hraw] at hvalue
  obtain ⟨fact, hfact, hrefers⟩ := hvalue
  cases hrefers with
  | present h => exact absurd h (not_refers_of_neg (by decide) _)
  | failed => exact hfact

namespace LiftM

section

variable {o : Operation} {r : Record} {d : Decoded} {size : Nat} {site : Site} {s : Session}

/-- The session in which an instruction is lifted. -/
def tracedAt (o : Operation) (r : Record) (site : Site) (s : Session) : Session :=
  s.note ⟨.trace, "Lifting instruction",
    [("site", Text.hex site.address.toNat), ("opcode", o.opcode.mnemonic), ("key", r.key)]⟩

theorem liftOperation_ret (hret : o.opcode = .ret) (hsubsumed : r.isSubsumed = false)
    (hok : d.isOk = true) :
    (liftOperation o r d size).run site s =
      let lifted := liftReturn (returned? site.config d) site (tracedAt o r site s)
      (.ok (.stmt lifted.1), lifted.2) := by
  obtain ⟨opcode, record, accepted⟩ := o
  obtain rfl : opcode = .ret := hret
  simp only [liftOperation, hsubsumed, hok]
  rfl

/-- Both forms of a return are those of an expression, lifted one after the other from a session. -/
def IsReturnOf (ret : Forms Stmt) (x : Forms Sym.Expr) (site : Site) (s : Session) : Prop :=
  let lowered := lowerExpr x.low site s
  ∃ m n, ret.low = .ofBody (.return (some ⟨m, lowered.1⟩)) ∧
    ret.high = .ofBody (.return (some ⟨n, (liftExpr x.high site lowered.2).1⟩))

theorem liftReturn_some (x : Forms Sym.Expr) :
    IsReturnOf (liftReturn (some x) site s).1 x site { s with pending.reachingDefs := [] } :=
  ⟨_, _, rfl, rfl⟩

/-- A returned value without a value is passed over. -/
theorem returned?_of_failed (cfg : Config) (h : d.returnValue = some .failed) :
    returned? cfg d = (d.preferred? cfg 0).map fun x => ⟨d.exprs.headD x, x⟩ := by
  rw [returned?, h]
  rfl

/-- **A returned value that is not available is passed over.** A return whose record is in order and
marks the returned value as not available is lifted as if the record had no returned value. If the
record has no expression, it returns nothing and reports nothing. Else it returns the first one, in
its best form. -/
theorem return_of_failed_value (o : Operation) (size : Nat) (site : Site) (s : Session)
    {cx : DecodeContext} {form : KeyForm} {letters : List Char}
    (hkey : r.key.toList = form.mark ++ letters)
    (hd : (({ record := r } : InstrFacts).decode cx).decoded = .ok d)
    (htag : r.hasReturnValue = true)
    (hmark : r.args[r.returnPosition letters.length]? = some (-2)) (hret : o.opcode = .ret)
    (hsubsumed : r.isSubsumed = false) (hok : d.isOk = true) :
    let run := (liftOperation o r d size).run site s
    d.returnValue = some .failed ∧
      run = (liftOperation o r { d with returnValue := none } size).run site s ∧
      ∃ ret s', run = (.ok (.stmt ret), s') ∧
        (d.preferred? site.config 0 = none →
          ret = ⟨.ofBody (.return none), .ofBody (.return none)⟩ ∧ s'.diagnostics = s.diagnostics) ∧
        ∀ x, d.preferred? site.config 0 = some x → ∃ s₀ : Session,
          s₀.globals = s.globals ∧ s₀.locals = s.locals ∧ s₀.diagnostics = s.diagnostics ∧
            IsReturnOf ret ⟨d.exprs.headD x, x⟩ site s₀ := by
  have hfailed := returnValue_of_mark hkey hd htag hmark
  have hreturned := returned?_of_failed site.config hfailed
  intro run
  have hrun : run = _ := liftOperation_ret hret hsubsumed hok
  refine ⟨hfailed, ?_, _, _, hrun, fun hnone => ?_, fun x hx => ?_⟩
  · have habsent : (liftOperation o r { d with returnValue := none } size).run site s = _ :=
      liftOperation_ret hret hsubsumed hok
    rw [hrun, habsent, hreturned]
    rfl
  · rw [hreturned, hnone]
    exact ⟨rfl, rfl⟩
  · rw [hreturned, hx]
    exact ⟨{ tracedAt o r site s with pending.reachingDefs := [] }, rfl, rfl, rfl,
      liftReturn_some _⟩

end

/-! ### A return of the first expression -/

def plainReturn : Operation :=
  ⟨.ret, ⟨1, ["return"], []⟩, by decide⟩

/-- A record with a result, and a returned value that is not available. -/
def failedAfterResult : Record :=
  ⟨1, ["ar:xc", "rv"], [1, 1, -2]⟩

/-- The result is returned. -/
theorem return_of_failed_value_with_result :
    let d : Decoded :=
      { exprsResult := [.present constantFive]
        committedExprs := [.present constantFive]
        returnValue := some .failed }
    let site : Site := ⟨{}, 0x400, []⟩
    let run := (liftOperation plainReturn failedAfterResult d 4).run site (Session.start {} "f")
    (({ record := failedAfterResult } : InstrFacts).decode fiveContext).decoded = .ok d ∧
      ∃ ret s', run = (.ok (.stmt ret), s') ∧
        ∃ s₀, IsReturnOf ret ⟨constantFive, constantFive⟩ site s₀ := by
  have hd : decodeRecord fiveContext failedAfterResult = .ok
      { exprsResult := [.present constantFive]
        committedExprs := [.present constantFive]
        returnValue := some .failed } := by
    rfl
  have hkey : failedAfterResult.key.toList = KeyForm.result.mark ++ ['x', 'c'] := by decide
  intro d site run
  obtain ⟨-, -, ret, s', hrun, -, hvalue⟩ := return_of_failed_value plainReturn 4 site
    (Session.start {} "f") hkey hd (by decide) rfl rfl (by decide) rfl
  obtain ⟨s₀, -, -, -, hreturn⟩ := hvalue constantFive rfl
  exact ⟨hd, ret, s', hrun, s₀, hreturn⟩

/-- A record with an expression, and a returned value that is not available. -/
def failedAfterExpr : Record :=
  ⟨1, ["a:x", "rv"], [1, -2]⟩

/-- **Another expression is returned in its place.** The return gives back the expression of the
record, five, without a placeholder and without a report. -/
theorem failed_value_replaced :
    let r := failedAfterExpr
    let d : Decoded := { exprs := [constantFive], returnValue := some .failed }
    let run := (liftOperation plainReturn r d 4).run ⟨{}, 0x400, []⟩ (Session.start {} "f")
    (({ record := r } : InstrFacts).decode fiveContext).decoded = .ok d ∧ d.isOk = true ∧
      r.isSubsumed = false ∧ r.hasReturnValue = true ∧ r.args[r.returnPosition 1]? = some (-2) ∧
      ∃ ret s', run = (.ok (.stmt ret), s') ∧ s'.diagnostics = [] ∧
        ret.high = .ofBody (.return (some ⟨2, .int 5 .int⟩)) ∧ (Expr.int 5 .int).reasons = [] := by
  have hd : decodeRecord fiveContext failedAfterExpr =
      .ok { exprs := [constantFive], returnValue := some .failed } := by
    rfl
  exact ⟨hd, rfl, by decide, by decide, rfl, _, _, rfl, rfl, rfl, by rw [Expr.reasons]⟩

end LiftM

end FactLift
