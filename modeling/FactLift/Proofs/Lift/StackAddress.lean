import FactLift.Lift.High
import FactLift.Proofs.Sym.Chain
import FactLift.Proofs.Symbols.LocalCalls

/-! Addresses in the frame.

The stack pointer at entry, to which constants are added and from which others are subtracted, is
an address in the frame. It is lifted to the address of the variable at its frame offset, and an
access to the frame at that offset goes to the same variable (`liftExpr_stackAddress`). -/

namespace FactLift

open C

/-! ### The stack pointer at entry -/

namespace Sym

theorem Variable.meaning_of_isStackBase {v : Variable} (h : v.isStackBase = true) :
    ∃ r level, v.meaning = .fixed (.initialRegister r level) ∧ Target.isStackPointer r = true := by
  unfold Variable.isStackBase Variable.initialRegister? at h
  split at h
  next r level hmeaning => exact ⟨r, level, hmeaning, h⟩
  next => cases h

theorem Variable.settle_of_isStackBase {v : Variable} (h : v.isStackBase = true) :
    v.settle = v := by
  obtain ⟨r, level, hmeaning, -⟩ := v.meaning_of_isStackBase h
  obtain ⟨name, number, meaning⟩ := v
  subst hmeaning
  rw [Variable.settle, Meaning.settle, FixedValue.settle]

theorem settle_chain (base : Expr) (links : List Link) :
    (base.chain links).settle = base.settle.chain links := by
  induction links using List.reverseRecOn with
  | nil => rfl
  | append_singleton links l ih =>
    rw [chain_concat, chain_concat, ← ih]
    simp [Expr.binary, Expr.settle, Expr.settleAll]

end Sym

/-- A variable is a piece of the local frame at an offset. -/
structure Sym.Variable.AtFrameOffset (m : Sym.Variable) (offset : Int64) : Prop where
  number : m.number ≠ -1
  meaning : ∃ size o, m.meaning = .memory .localFrame size o ∧
    (o = .const offset .none ∨ offset = 0 ∧ o = .none)

namespace LiftM

variable {site : Site} {s : Session} {offset : Int64}

/-! ### The variable at a frame offset -/

theorem slot?_slotVariable :
    (slotVariable offset site s).2.locals.slot? offset = some (slotVariable offset site s).1 := by
  obtain ⟨-, hslot, -⟩ := s.locals.slot_later offset none
  exact congrArg (Option.map _) hslot

/-- Asked for again, the variable is there. -/
theorem slotVariable_again (site' : Site) :
    slotVariable offset site' (slotVariable offset site s).2 = slotVariable offset site s := by
  have hagain : (s.locals.slot offset none).2.slot offset none = s.locals.slot offset none := by
    obtain ⟨-, hslot, -⟩ := s.locals.slot_later offset none
    generalize s.locals.slot offset none = found at hslot ⊢
    simp only [Locals.slot, hslot]
  exact congrArg (fun found => (found.2.get found.1, { s with locals := found.2 })) hagain

theorem slotAddress_run :
    slotAddress offset site s =
      (.addressOf (.var (slotVariable offset site s).1 .none), (slotVariable offset site s).2) :=
  rfl

/-! ### Two ways to it -/

/-- An address in the frame is that of a variable of the frame, also if nothing is added to the
stack pointer. -/
theorem liftSettled_stackAddress {x : Sym.Expr} (hx : x.stackOffset? = some offset)
    (hnumber : ∀ v, x = .var v → v.number ≠ -1) : liftSettled x = slotAddress offset := by
  cases x with
  | const c => simp [Sym.Expr.stackOffset?] at hx
  | var v =>
    -- Nothing is left of the constants: the address is lifted as a variable with a fixed value.
    have hnumber : v.number ≠ -1 := hnumber v rfl
    rw [Sym.Expr.stackOffset?] at hx
    split at hx
    next hv =>
      obtain rfl : 0 = offset := Option.some.inj hx
      obtain ⟨r, level, hmeaning, hr⟩ := Sym.Variable.meaning_of_isStackBase hv
      obtain ⟨name, number, meaning⟩ := v
      subst hmeaning
      rw [liftSettled, liftVariable, if_neg (by simpa using hnumber), liftFixed,
        liftInitialRegister, if_pos hr]
    next => cases hx
  | apply op args =>
    unfold liftSettled
    rw [hx]

/-- An access to the frame goes to the variable at its offset. -/
theorem liftLval_frame {m : Sym.Variable} (hm : m.AtFrameOffset offset)
    (hint : Option Sym.Expr) :
    liftLval m hint site s =
      (.var (slotVariable offset site s).1 .none, (slotVariable offset site s).2) := by
  obtain ⟨hnumber, size, o, hmeaning, ho⟩ := hm
  obtain ⟨name, number, meaning⟩ := m
  subst hmeaning
  have hplace : liftLvalue (Sym.Variable.settle ⟨name, number, .memory .localFrame size o⟩) =
      (do return .ok (.var (← slotVariable offset) .none)) := by
    rw [Sym.Variable.settle, Sym.Meaning.settle, Sym.Base.settle, liftLvalue,
      if_neg (by simpa using hnumber)]
    obtain rfl | ⟨rfl, rfl⟩ := ho
    · rw [Sym.Offset.settle, Sym.Offset.settle, liftPlace]
      simp only [liftOffset, pure_bind]
    · rw [Sym.Offset.settle, liftPlace]
  rw [liftLval, hplace]
  rfl

/-- **Addresses in the frame are those of its variables.** Constants added to the stack pointer at
entry and subtracted from it come to the frame offset of their total. Lifted in any session, the
address is that of the variable which an access to the frame at that offset goes to, and both leave
the same session behind. From then on both find the variable there. -/
theorem liftExpr_stackAddress {v : Sym.Variable} (hv : v.isStackBase = true)
    (hnumber : v.number ≠ -1) (links : List Sym.Link) :
    let x := (Sym.Expr.var v).chain links
    let total := (Sym.Link.total links).bmod (2 ^ 32)
    ∃ offset : Int64, offset.toInt = (if total = -2 ^ 31 then 2 ^ 31 else total) ∧
      x.simplify.stackOffset? = some offset ∧
      ∀ site s, ∃ slot s', s'.locals.slot? offset = some slot ∧
        liftExpr x site s = (.addressOf (.var slot .none), s') ∧
        (∀ site', liftExpr x site' s' = (.addressOf (.var slot .none), s')) ∧
        ∀ m hint, Sym.Variable.AtFrameOffset m offset →
          liftLval m hint site s = (.var slot .none, s') ∧
          ∀ site', liftLval m hint site' s' = (.var slot .none, s') := by
  intro x total
  let offset := Sym.frameOffset (Sym.Link.total links)
  have hoffset : x.simplify.stackOffset? = some offset := Sym.stackOffset?_chain hv links
  have hlift : liftExpr x = slotAddress offset := by
    rw [liftExpr, Sym.settle_chain, Sym.Expr.settle, Sym.Variable.settle_of_isStackBase hv]
    refine liftSettled_stackAddress hoffset fun v' hv' => ?_
    rw [Sym.var_of_simplify_chain hv']
    exact hnumber
  refine ⟨offset, Sym.toInt_frameOffset _, hoffset, fun site s => ?_⟩
  rw [hlift]
  refine ⟨(slotVariable offset site s).1, (slotVariable offset site s).2, slot?_slotVariable, rfl,
    fun site' => ?_, fun m hint hm => ⟨liftLval_frame hm hint, fun site' => ?_⟩⟩
  · rw [slotAddress_run, slotVariable_again]
  · rw [liftLval_frame hm, slotVariable_again]

/-- A chain that goes around to the most negative total, which is its own negative: the address is
that of the variable at the positive offset. -/
theorem liftExpr_stackAddress_of_wrapped :
    let v : Sym.Variable := ⟨"sp_in", 1, .fixed (.initialRegister "sp" 0)⟩
    let x := (Sym.Expr.var v).chain [.minus 4, .plus 0x7fffffff, .minus (-5)]
    let m : Sym.Variable := ⟨"m", 2, .memory .localFrame 4 (.const 0x80000000 .none)⟩
    let s := Session.start {} "f"
    x.simplify.stackOffset? = some 0x80000000 ∧
      ∃ slot s', liftExpr x ⟨{}, 0x400, []⟩ s = (.addressOf (.var slot .none), s') ∧
        liftLval m none ⟨{}, 0x400, []⟩ s = (.var slot .none, s') := by
  intro v x m s
  obtain ⟨offset, htotal, hoffset, hlift⟩ := liftExpr_stackAddress (v := v) (by decide) (by decide)
    [.minus 4, .plus 0x7fffffff, .minus (-5)]
  obtain rfl : offset = 0x80000000 := Int64.toInt_inj.mp (htotal.trans (by decide))
  obtain ⟨slot, s', -, hexpr, -, hlval⟩ := hlift ⟨{}, 0x400, []⟩ s
  exact ⟨hoffset, slot, s', hexpr, (hlval m none ⟨by decide, 4, _, rfl, .inl rfl⟩).1⟩

end LiftM

end FactLift
