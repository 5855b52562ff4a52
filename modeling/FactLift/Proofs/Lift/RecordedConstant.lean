import FactLift.Proofs.Lift.LocalSymbols
import FactLift.Proofs.Sym.Folding

/-! The constants that are kept for definitions of registers.

An assignment to a register keeps the constant that its right-hand side folds to, as the variable of
the definition holds it. That variable gets the type of the lifted value, if it gets one, and a
constant has the type of its own width, so nothing is cut off (`heldBy_of_isNormal`). What is kept
is therefore the value of the right-hand side over the integers, and nothing is kept if it has none
(`liftAssign_keeps_value`). The local symbols are to be sound, as they are throughout the lift of a
function (`LiftRun.sound`). -/

namespace FactLift

open C

/-! ### The variable of a definition -/

namespace Locals

variable {l l' : Locals}

theorem constants_ssaVariable (l : Locals) (r : String) (a : UInt64) (t : Option Ty) :
    (l.ssaVariable r a t).2.2.constants = l.constants := by
  unfold ssaVariable
  split
  · rfl
  · unfold addSymbol
    dsimp only
    split <;> rfl

/-- After symbols were widened, a definition that is asked for first has a variable of the type that
is asked for, or of none: it shares the variable of its name if that was made up meanwhile. -/
theorem Widens.ssaVariable_type (h : l.Widens l') {r : String} {a : UInt64}
    (hname : ssaName r a ∉ l.symbols) (hid : l'.ssaId? r a = none) (t : Option Ty) :
    ∃ w, (l'.ssaVariable r a t).2.2.ssa? r a = some w ∧ (w.type = none ∨ w.type = t) := by
  refine ⟨_, Option.map_eq_some_iff.mpr ⟨_, (l'.ssaVariable_later r a t).2, rfl⟩, ?_⟩
  simp only [ssaVariable, hid, addSymbol]
  cases hmade : l'.symbols[ssaName r a]? with
  | some v =>
    obtain ⟨s, hs, htype⟩ := h.untyped _ v hname hmade
    left
    simpa [Locals.get, Array.getD_eq_getD_getElem?, hs] using htype
  | none =>
    right
    simp [Locals.get, Locals.insert, Array.getD_eq_getD_getElem?]

end Locals

namespace LiftM

/-! ### The constant that a variable holds -/

/-- A normal constant fits the type that it is lifted to, and any variable without a type. -/
theorem heldBy_of_isNormal {c : Sym.Constant} (hc : c.IsNormal) {t : Option Ty} {site : Site}
    {s : Session} {g : Globals} (ht : t = none ∨ t = (liftConstant c site s).1.typeOf g) :
    heldBy t c.value = c.value := by
  rcases ht with rfl | rfl
  · rfl
  cases c with
  | address a => exact hc.elim
  | int v w =>
    cases w with
    | w32 => exact (Word.widen_32 v).trans hc
    | w64 => rfl

/-- What folds is lifted as the constant. -/
theorem liftExpr_of_fold {x : Sym.Expr} {c : Sym.Constant} (h : x.fold = some c) :
    liftExpr x = liftConstant c := by
  rw [liftExpr, Sym.settle_of_vars (Sym.vars_of_fold h), Sym.simplify_of_fold h, liftSettled]

theorem ssa?_keepConstant (l : Locals) (r : String) (a : UInt64) (value : Sym.Expr) :
    (keepConstant l r a value).ssa? = l.ssa? := by
  unfold keepConstant
  split <;> rfl

/-- One constant is kept at most, under the name of the definition. -/
theorem constant?_keepConstant {l : Locals} {r : String} {a : UInt64} {w : Symbol}
    (hw : l.ssa? r a = some w) (value : Sym.Expr) (name : String) :
    (keepConstant l r a value).constant? name =
      if w.name = name then
        (value.simplify.fold.map fun c => .int (heldBy w.type c.value) .int).or (l.constant? name)
      else l.constant? name := by
  simp only [keepConstant, hw]
  cases value.simplify.fold with
  | none => simp
  | some c => simp [Locals.setConstant, Locals.constant?, Std.TreeMap.getElem?_insert]

/-! ### Assignments -/

/-- An assignment to a register widens the local symbols, asks for the variable of the definition
with the type of the lifted value, and keeps its constant. -/
theorem liftAssign_locals {target : Sym.Variable} {r : String} (hr : target.register? = some r)
    (hstack : Target.isStackPointer r = false) (low x : Sym.Expr) (hint : Option Sym.Expr)
    {site : Site} (hconfig : site.config = {}) (s : Session) :
    ∃ l s₁ g, s.locals.Widens l ∧
      (liftAssign target low x hint site s).2.locals =
        keepConstant
          (l.ssaVariable r site.address ((liftExpr x site s₁).1.typeOf g)).2.2 r site.address x := by
  let s₀ : Session := { s with pending.reachingDefs := [] }
  let reaching := s.pending.reachingDefs.filterMap Fact.value?
  let s₁ := (lowerExpr low site s₀).2
  let s₂ := (liftValue low x reaching site s₀).2
  let t := (liftExpr x site s₁).1.typeOf s₂.globals
  have hplace := liftTarget_locals target t hint site s₂
  rw [liftDefinition_locals hr hstack t hint (by rw [hconfig])] at hplace
  have hassign : (liftAssign target low x hint site s).2.locals =
      (recordConstant target x site (liftTarget target t hint site s₂).2).2.locals :=
    linkInstrs_keepsLocals ⟨.assign (liftTarget target t hint site s₂).1.low _,
      .assign (liftTarget target t hint site s₂).1.high _⟩ site _
  refine ⟨(lowerLval target site s₂).2.locals, s₁, s₂.globals, ?_, ?_⟩
  · exact (liftValue_widening low x reaching site s₀).trans ((lowerLval_steps target).widens site s₂)
  · rw [hassign, recordConstant_locals hr x (by rw [hconfig]), hplace]

/-- **What is kept is the value.** An assignment to a register other than the stack pointer keeps, for
the variable of the definition, the value of the right-hand side over the integers, if it has no
variables and a value; otherwise it keeps nothing. No other definition's constant changes. The name
of the definition must not have stood for anything, and constants must be integers that are normal at
their widths. -/
theorem liftAssign_keeps_value {s : Session} (hs : s.locals.Sound) {target : Sym.Variable}
    {r : String} (hr : target.register? = some r) (hstack : Target.isStackPointer r = false)
    {a : UInt64} (hname : ssaName r a ∉ s.locals.symbols)
    (hfree : s.locals.constant? (ssaName r a) = none) {x : Sym.Expr}
    (hx : ∀ c ∈ x.constants, c.IsNormal) (low : Sym.Expr) (hint : Option Sym.Expr) (d : Decoded) :
    let l := ((liftAssign target low x hint).runAt {} a d s).2.locals
    (∃ w, l.ssa? r a = some w ∧
      l.constant? w.name =
        if x.vars.isEmpty then x.evaluate.map fun c => .int c.value .int else none) ∧
    ∀ r' a' w, (r', a') ≠ (r, a) → l.ssa? r' a' = some w →
      l.constant? w.name = s.locals.constant? w.name := by
  intro l
  let site : Site := ⟨{}, a, d.reachingDefs.filterMap Fact.value?⟩
  obtain ⟨l₁, s₁, g, hwidens, hl⟩ := liftAssign_locals hr hstack low x hint
    (show site.config = {} from rfl) { s with pending := .ofDecoded d }
  change s.locals.Widens l₁ at hwidens
  change l = _ at hl
  generalize htype : (liftExpr x _ s₁).1.typeOf g = t at hl
  let l₂ := (l₁.ssaVariable r a t).2.2
  have hsound : l₂.WellNamed := ((hwidens.sound hs).ssaVariable r a t).toWellNamed
  have hconstants (name : String) : l₂.constant? name = s.locals.constant? name := by
    rw [← hwidens.constant?, Locals.constant?, Locals.constants_ssaVariable, Locals.constant?]
  have hid : l₁.ssaId? r a = none := by
    rw [hwidens.ssaId?, hs.toWellNamed.ssaId?_eq_none hname]
  obtain ⟨w, hw, hwtype⟩ := hwidens.ssaVariable_type hname hid t
  have hwname : w.name = ssaName r a := hsound.ssa?_name hw
  rw [hl, ssa?_keepConstant]
  refine ⟨⟨w, hw, ?_⟩, fun r' a' w' hne hw' => ?_⟩
  · have hvalue := Sym.fold_simplify_eq_evaluate hx
    rw [Sym.fold_simplify] at hvalue
    rw [constant?_keepConstant hw, if_pos rfl, hconstants, hwname, hfree, Option.or_none,
      Sym.fold_simplify, ← hvalue]
    cases hfold : x.fold with
    | none => simp
    | some c =>
      have hnormal : c.IsNormal := (Sym.fold_exact Sym.foldable_isNormal x hx).2 c hfold
      rw [liftExpr_of_fold hfold] at htype
      have hheld : heldBy w.type c.value = c.value :=
        heldBy_of_isNormal hnormal (hwtype.imp_right fun h => h.trans htype.symm)
      simp [Sym.vars_of_fold hfold, hheld]
  · have hother : w.name ≠ w'.name := by
      rw [hwname, hsound.ssa?_name hw']
      intro heq
      obtain ⟨rfl, rfl⟩ := ssaName_inj heq
      exact hne rfl
    rw [constant?_keepConstant hw, if_neg hother, hconstants]

/-- The difference of two 32-bit constants that wraps around is kept as it wraps, for `R3` at the
site `0x10` and for nothing else. -/
theorem liftAssign_keeps_value_wrapped :
    let target : Sym.Variable := ⟨"R3", 1, .register "R3"⟩
    let x : Sym.Expr :=
      .apply .minus [.const (.int (-2147483648) .w32), .const (.int 1 .w32)]
    let l := ((liftAssign target x x none).runAt {} 0x10 {} (Session.start {} "f")).2.locals
    (∃ w, l.ssa? "R3" 0x10 = some w ∧ l.constant? w.name = some (.int 2147483647 .int)) ∧
    ∀ r a w, (r, a) ≠ ("R3", 0x10) → l.ssa? r a = some w → l.constant? w.name = none := by
  intro target x l
  have h := liftAssign_keeps_value (Session.sound_start {} "f")
    (show target.register? = some "R3" from rfl) (by decide) (a := 0x10)
    (by simp [Session.start]) (by simp [Session.start, Locals.constant?]) (x := x) (by decide)
    x none {}
  obtain ⟨⟨w, hw, hconstant⟩, hothers⟩ := h
  have hvalue : x.evaluate = some (.int 2147483647 .w32) := by decide
  refine ⟨⟨w, hw, by rw [hconstant, hvalue]; rfl⟩, fun r a w hne hw => ?_⟩
  rw [hothers r a w hne hw]
  simp [Session.start, Locals.constant?]

end LiftM

end FactLift
