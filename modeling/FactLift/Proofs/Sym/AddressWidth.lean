import FactLift.Proofs.Sym.Exact
import Mathlib.Data.List.Permutation

/-! Global addresses as operands.

An address is a whole word that counts as a 32-bit constant. Folding takes it at the width of the
operation and evaluation cuts it to 32 bits first, so they agree where the address may be taken
without being cut (`fold_constants_eq_evaluate`). Beside a 64-bit constant that is the case only if
the address is a signed 32-bit number (`fold_address_eq_evaluate_iff`). -/

namespace FactLift.Sym

/-! ### Operators on constants -/

theorem foldAll_constants (cs : List Constant) : Expr.foldAll (cs.map .const) = some cs := by
  induction cs with
  | nil => rfl
  | cons c rest ih => simp [Expr.foldAll, Expr.fold, ih]

theorem evaluateAll_constants (cs : List Constant) :
    Expr.evaluateAll (cs.map .const) = some (cs.map Constant.exact) := by
  induction cs with
  | nil => rfl
  | cons c rest ih => simp [Expr.evaluateAll, Expr.evaluateExact, ih, Constant.exact]

theorem fold_constants (op : Op) (cs : List Constant) :
    (Expr.apply op (cs.map .const)).fold = foldOp op cs := by
  rw [Expr.fold, foldAll_constants]
  rfl

/-- Constants that may be taken at the width of an operation without being cut to their own first
are folded to the value of the operation. -/
theorem fold_constants_eq_evaluate (op : Op) (cs : List Constant)
    (h : ∀ c ∈ cs, c.FitsAt (joinWidths (cs.map Constant.width))) :
    (Expr.apply op (cs.map .const)).fold = (Expr.apply op (cs.map .const)).evaluate := by
  rw [fold_constants, Expr.evaluate, evaluateExact_apply, evaluateAll_constants, Option.bind_some,
    ← foldOp_exact op cs h, Option.map_map]
  cases hfold : foldOp op cs with
  | none => rfl
  | some c =>
    have hnormal : c.IsNormal := isNormal_of_isResult (foldOp_isResult hfold)
    exact congrArg some (ofExact_of_isNormal hnormal).symm

/-- Evaluation sees the exact values of the constants only. -/
theorem evaluate_constants_congr (op : Op) {cs cs' : List Constant}
    (h : cs.map Constant.exact = cs'.map Constant.exact) :
    (Expr.apply op (cs.map .const)).evaluate = (Expr.apply op (cs'.map .const)).evaluate := by
  rw [Expr.evaluate, Expr.evaluate, evaluateExact_apply, evaluateExact_apply,
    evaluateAll_constants, evaluateAll_constants, h]

/-! ### Addresses -/

/-- An address that is a signed 32-bit number may be taken at any width, and every address at 32
bits. -/
theorem fitsAt_address {a : UInt64} {w : Width}
    (h : w = .w32 ∨ Width.w32.normalize a.toInt64 = a.toInt64) : (Constant.address a).FitsAt w := by
  rcases h with rfl | h
  · exact reduce_reduce _ _
  · exact congrArg (reduce · w) (reduce_of_normal h)

/-- An address is evaluated as the 32-bit integer in its low half, and that one is folded so. -/
theorem evaluate_address (op : Op) (a : UInt64) {c : Constant} (hc : c.IsNormal) :
    (Expr.apply op ([.address a, c].map .const)).evaluate =
      (Expr.apply op ([.atWidth a.toInt64 .w32, c].map .const)).fold := by
  have hlow : (Constant.atWidth a.toInt64 .w32).IsNormal := isNormal_of_isResult (.word _)
  rw [fold_constants_eq_evaluate]
  · refine evaluate_constants_congr op ?_
    simp only [List.map_cons, exact_atWidth]
    rfl
  · refine List.forall_mem_cons.mpr ⟨hlow.fitsAt _, ?_⟩
    exact List.forall_mem_singleton.mpr (hc.fitsAt _)

/-- The width of an operation on an address and a constant is that of the constant. -/
theorem joinWidths_address {a : UInt64} {c : Constant} {cs : List Constant}
    (h : cs.Perm [.address a, c]) : joinWidths (cs.map Constant.width) = c.width := by
  rcases List.perm_pair.mp h with rfl | rfl
  · rfl
  · show (c.width.join .w32) = c.width
    cases c.width <;> rfl

/-- **Where folding agrees with evaluation on an address.** All binary operators are folded to their
value on an address and a constant, in either order, if the constant has 32 bits or the address is a
signed 32-bit number, and only then. -/
theorem fold_address_eq_evaluate_iff (a : UInt64) {c : Constant} (hc : c.IsNormal) :
    (∀ op : Op, op.isUnary = false → ∀ cs : List Constant, cs.Perm [.address a, c] →
      (Expr.apply op (cs.map .const)).fold = (Expr.apply op (cs.map .const)).evaluate) ↔
      c.width = .w32 ∨ Width.w32.normalize a.toInt64 = a.toInt64 := by
  constructor
  · intro h
    cases c with
    | address b => exact hc.elim
    | int v w =>
      cases w with
      | w32 => exact .inl rfl
      | w64 =>
        -- the sums with the whole address and with its low half differ by what is cut away
        have hsum := h .plus rfl [.address a, .int v .w64] (.refl _)
        rw [evaluate_address _ _ hc, fold_constants, fold_constants] at hsum
        have hsum : a.toInt64 + v = Width.w32.normalize a.toInt64 + v := by
          injection hsum with hsum
          injection hsum
        exact .inr ((Int64.add_left_inj v).mp hsum).symm
  · intro h op _ cs hcs
    refine fold_constants_eq_evaluate op cs fun k hk => ?_
    rw [joinWidths_address hcs]
    rcases List.mem_cons.mp (hcs.mem_iff.mp hk) with rfl | hk
    · exact fitsAt_address h
    · obtain rfl := List.mem_singleton.mp hk
      exact hc.fitsAt _

/-- An address with the sign in all upper bits is a 32-bit number, also beside a 64-bit constant. -/
theorem fold_address_eq_evaluate_iff_of_negative :
    let a : UInt64 := 0xffffffff80000000
    let c : Constant := .int 1 .w64
    c.IsNormal ∧
      ∀ op : Op, op.isUnary = false → ∀ cs : List Constant, cs.Perm [.address a, c] →
        (Expr.apply op (cs.map .const)).fold = (Expr.apply op (cs.map .const)).evaluate :=
  ⟨rfl, (fold_address_eq_evaluate_iff (c := .int 1 .w64) _ rfl).mpr (.inr rfl)⟩

/-- The sum of an address past 32 bits and a 64-bit constant is folded to what it is not. -/
theorem fold_address_misses_value :
    let x : Expr := .binary .plus (.const (.address 0x100000000)) (.const (.int 1 .w64))
    x.fold = some (.int 0x100000001 .w64) ∧ x.evaluate = some (.int 1 .w64) := by
  decide

end FactLift.Sym
