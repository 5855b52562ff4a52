import FactLift.Proofs.Sym.Chain

/-! Folding and simplifying come to the same constants.

An expression folds to a constant before it is simplified exactly if it does so afterwards
(`fold_simplify`), and then it is simplified to that constant (`simplify_of_fold`). Over normal
constants that is its value over the integers (`fold_simplify_eq_evaluate`). -/

namespace FactLift.Sym

variable {x : Expr} {k : Constant}

theorem foldAll_congr {f : Expr → Expr} {xs : List Expr} (h : ∀ a ∈ xs, (f a).fold = a.fold) :
    Expr.foldAll (xs.map f) = Expr.foldAll xs := by
  induction xs with
  | nil => rfl
  | cons a rest ih =>
    obtain ⟨ha, hrest⟩ := List.forall_mem_cons.mp h
    rw [List.map_cons, Expr.foldAll, Expr.foldAll, ha, ih hrest]

/-- A sum that does not fold does not fold after its constants were merged. -/
theorem fold_simplifyLinear (h : x.fold = none) : (simplifyLinear x).fold = none := by
  unfold simplifyLinear
  split
  next base outer w houter =>
    obtain ⟨op, c, hop, rfl, -⟩ := movedBy?_eq_some houter
    have hbase := fold_base hop h
    split
    next inner c' w' hinner =>
      obtain ⟨op', d, hop', rfl, -⟩ := movedBy?_eq_some hinner
      exact fold_moved (fold_base hop' hbase) _ _
    next => exact fold_moved hbase _ _
  next => exact h

theorem fold_simplifyTop (x : Expr) : (simplifyTop x).fold = x.fold := by
  unfold simplifyTop
  split
  next k hk => rw [Expr.fold, hk]
  next hnone => rw [hnone, fold_simplifyLinear hnone]

/-- **Simplifying neither finds nor loses a constant.** -/
theorem fold_simplify (x : Expr) : x.simplify.fold = x.fold := by
  induction x using Expr.operandInduction with
  | const k => rw [Expr.simplify]
  | var v => rw [Expr.simplify]
  | apply op args ih =>
    rw [Expr.simplify, fold_simplifyTop, simplifyAll_eq_map, Expr.fold, foldAll_congr ih, Expr.fold]

/-- What folds is simplified to the constant. -/
theorem simplify_of_fold (h : x.fold = some k) : x.simplify = .const k := by
  cases x with
  | const c =>
    rw [Expr.fold] at h
    rw [Expr.simplify, Option.some.inj h]
  | var v =>
    rw [Expr.fold] at h
    cases h
  | apply op args =>
    have hargs : (Expr.apply op (args.map Expr.simplify)).fold = some k := by
      rw [Expr.fold, foldAll_congr fun a _ => fold_simplify a]
      rwa [Expr.fold] at h
    rw [Expr.simplify, simplifyAll_eq_map, simplifyTop, hargs]

/-- There is nothing to settle in an expression without variables. -/
theorem settle_of_vars (h : x.vars = []) : x.settle = x := by
  induction x using Expr.operandInduction with
  | const k => rw [Expr.settle]
  | var v =>
    rw [Expr.vars] at h
    cases h
  | apply op args ih =>
    rw [Expr.vars, varsOf_eq_flatMap, List.flatMap_eq_nil_iff] at h
    rw [Expr.settle, settleAll_eq_map, List.map_congr_left fun a ha => ih a ha (h a ha),
      List.map_id']

/-- **The constant that is found is the value.** Over constants that are normal at their widths, an
expression folds after it was simplified to what it evaluates to over the integers. -/
theorem fold_simplify_eq_evaluate (h : ∀ c ∈ x.constants, c.IsNormal) :
    x.simplify.fold = x.evaluate := by
  obtain ⟨hexact, hnormal⟩ := fold_exact foldable_isNormal x h
  rw [fold_simplify, Expr.evaluate, ← hexact, Option.map_map]
  cases hx : x.fold with
  | none => rfl
  | some c => exact congrArg some (ofExact_of_isNormal (hnormal c hx)).symm

end FactLift.Sym
