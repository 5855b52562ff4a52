import FactLift.Proofs.Sym.Simplify
import Mathlib.Data.List.Basic

/-! The form that simplifying leaves an expression in.

Every variable stays in its place (`vars_simplify`): what folds has none, and merging constants
takes apart and puts together sums of one base. What is left is reduced (`Expr.IsReduced`): nothing
in it folds, and a constant stands behind its base alone, cut to its width and with the operator
that makes it positive. The expressions that simplifying leaves alone are the reduced ones, so
simplifying twice is simplifying once (`simplify_simplify`). -/

namespace FactLift.Sym

variable {x base : Expr} {op : Op} {args : List Expr} {c : Int64} {w : Width}

/-! ### Variables -/

theorem vars_instantiate (ρ : Variable → Constant) (x : Expr) : (x.instantiate ρ).vars = [] := by
  induction x using Expr.operandInduction with
  | const k => rw [Expr.instantiate, Expr.vars]
  | var v => rw [Expr.instantiate, Expr.vars]
  | apply op args ih =>
    rw [Expr.instantiate, Expr.vars, instantiateAll_eq_map, varsOf_eq_flatMap,
      List.flatMap_eq_nil_iff]
    intro a ha
    obtain ⟨b, hb, rfl⟩ := List.mem_map.mp ha
    exact ih b hb

theorem vars_of_fold {k : Constant} (h : x.fold = some k) : x.vars = [] := by
  rw [← instantiate_of_fold (fun _ => k) x h]
  exact vars_instantiate _ x

theorem vars_offset (op : Op) (base : Expr) (k : Constant) :
    (Expr.apply op [base, .const k]).vars = base.vars := by
  simp [Expr.vars, Expr.varsOf]

theorem vars_moved (base : Expr) (total : Int64) (w : Width) :
    (moved base total w).vars = base.vars := by
  simp only [moved]
  split
  · rfl
  · split <;> exact vars_offset _ base _

theorem vars_movedBy? {d : Int64} (h : movedBy? x = some (base, d, w)) : base.vars = x.vars := by
  obtain ⟨op, c, -, rfl, -⟩ := movedBy?_eq_some h
  exact (vars_offset op base _).symm

theorem vars_simplifyLinear (x : Expr) : (simplifyLinear x).vars = x.vars := by
  unfold simplifyLinear
  split
  next base outer w houter =>
    split
    next inner c w' hinner => rw [vars_moved, vars_movedBy? hinner, vars_movedBy? houter]
    next => rw [vars_moved, vars_movedBy? houter]
  next => rfl

theorem vars_simplifyTop (x : Expr) : (simplifyTop x).vars = x.vars := by
  unfold simplifyTop
  split
  next k hfold => rw [vars_of_fold hfold, Expr.vars]
  next => exact vars_simplifyLinear x

/-- **No variable is lost or moved.** The variables of a simplified expression, from left to right,
are those that it had before. -/
theorem vars_simplify (x : Expr) : x.simplify.vars = x.vars := by
  induction x using Expr.operandInduction with
  | const k => rw [Expr.simplify]
  | var v => rw [Expr.simplify]
  | apply op args ih =>
    rw [Expr.simplify, vars_simplifyTop, simplifyAll_eq_map, Expr.vars, Expr.vars,
      varsOf_eq_flatMap, varsOf_eq_flatMap, List.flatMap_map]
    exact List.flatMap_congr ih

/-! ### Reduced expressions -/

/-- A constant behind a base, as simplifying writes it: cut to its width and positive. The most
negative constant of a width is its own negative, and is taken away. -/
def IsOffset (op : Op) (c : Int64) (w : Width) : Prop :=
  w.normalize c = c ∧ if op = .minus then w.normalize (-c) < 0 else 0 < c

/-- Nothing is left to fold in an expression, and no constants are left to merge. -/
inductive Expr.IsReduced : Expr → Prop
  | const (k : Constant) : IsReduced (.const k)
  | var (v : Variable) : IsReduced (.var v)
  | apply {op : Op} {args : List Expr} (hargs : ∀ a ∈ args, IsReduced a)
      (hfold : (Expr.apply op args).fold = none)
      (hoffset : ∀ base c w, isLinear op = true → args = [base, .const (.int c w)] →
        movedBy? base = none ∧ IsOffset op c w) : IsReduced (.apply op args)

theorem normalize_normalize (w : Width) (v : Int64) :
    w.normalize (w.normalize v) = w.normalize v :=
  isNormal_of_isResult (.word v)

/-- A constant that is negated twice is the same, also where negating wraps around. -/
theorem normalize_neg_normalize_neg (w : Width) (v : Int64) :
    w.normalize (-w.normalize (-v)) = w.normalize v := by
  rw [← Int64.toInt_inj, toInt_normalize, toInt_normalize]
  apply reduce_neg_neg
  rw [toInt_normalize, reduce_reduce]

/-! ### Constants behind a base -/

/-- A constant that is written as it should be stays as it is. -/
theorem moved_signedBy (hop : isLinear op = true) (h : IsOffset op c w) :
    moved base (signedBy op c) w = .apply op [base, .const (.int c w)] := by
  obtain ⟨hnormal, hsign⟩ := h
  cases op with
  | plus =>
    have hpos : 0 < c := hsign
    have hne : c ≠ 0 := Int64.ne_of_lt hpos |>.symm
    have hlt : ¬ c < 0 := Int64.not_lt.mpr (Int64.le_of_lt hpos)
    simp [moved, signedBy, hnormal, hne, hlt, Expr.binary, Constant.atWidth]
  | minus =>
    have hneg : w.normalize (-c) < 0 := hsign
    have hne : w.normalize (-c) ≠ 0 := Int64.ne_of_lt hneg
    simp [moved, signedBy, hne, hneg, Expr.binary, Constant.atWidth, normalize_neg_normalize_neg,
      hnormal]
  | _ => contradiction

theorem fold_offset (op : Op) (k : Constant) (h : base.fold = none) :
    (Expr.apply op [base, .const k]).fold = none := by
  simp [Expr.fold, Expr.foldAll, h]

/-- Adding and subtracting are defined on all constants, so a sum or difference that does not fold
has a base that does not. -/
theorem fold_base (hop : isLinear op = true) {k : Constant}
    (h : (Expr.apply op [base, .const k]).fold = none) : base.fold = none := by
  cases hbase : base.fold with
  | none => rfl
  | some b =>
    cases op with
    | plus | minus => simp [Expr.fold, Expr.foldAll, hbase, foldOp, Op.isUnary, foldBinary] at h
    | _ => contradiction

section Base

variable (hbase : base.IsReduced) (hfold : base.fold = none) (hmoved : movedBy? base = none)
include hbase hfold hmoved

theorem isReduced_offset (h : IsOffset op c w) :
    (Expr.apply op [base, .const (.int c w)]).IsReduced := by
  refine .apply ?_ (fold_offset op _ hfold) ?_
  · intro a ha
    obtain rfl | rfl : a = base ∨ a = .const (.int c w) := by simpa using ha
    · exact hbase
    · exact .const _
  · intro base' c' w' _ hargs
    obtain ⟨rfl, rfl, rfl⟩ : base = base' ∧ c = c' ∧ w = w' := by simpa using hargs
    exact ⟨hmoved, h⟩

/-- What merging constants puts together is reduced. -/
theorem isReduced_moved (total : Int64) (w : Width) : (moved base total w).IsReduced := by
  have hoffset {op : Op} {v : Int64} (h : IsOffset op (w.normalize v) w) :
      (Expr.binary op base (.const (.atWidth v w))).IsReduced :=
    isReduced_offset hbase hfold hmoved h
  simp only [moved]
  split
  next => exact hbase
  next hzero =>
    have hne : w.normalize total ≠ 0 := by simpa using hzero
    split
    next hneg =>
      refine hoffset ⟨normalize_normalize _ _, ?_⟩
      rw [if_pos rfl, normalize_neg_normalize_neg, normalize_normalize]
      exact hneg
    next hnonneg =>
      refine hoffset ⟨normalize_normalize _ _, ?_⟩
      rw [if_neg (by decide), normalize_normalize]
      exact Int64.lt_of_le_of_ne (Int64.not_lt.mp hnonneg) hne.symm

end Base

/-! ### Simplifying -/

theorem isReduced_simplifyLinear (hargs : ∀ a ∈ args, a.IsReduced)
    (hfold : (Expr.apply op args).fold = none) : (simplifyLinear (.apply op args)).IsReduced := by
  unfold simplifyLinear
  split
  next base outer w houter =>
    obtain ⟨op', c, hop, hx, -⟩ := movedBy?_eq_some houter
    obtain ⟨rfl, rfl⟩ := Expr.apply.inj hx
    have hbase : base.IsReduced := hargs base (by simp)
    split
    next inner d w' hinner =>
      -- the base is reduced, so the constants of its own base are merged already
      obtain ⟨op'', c', hop', rfl, -⟩ := movedBy?_eq_some hinner
      cases hbase with
      | apply hparts hbasefold hoffset =>
        exact isReduced_moved (hparts inner (by simp)) (fold_base hop' hbasefold)
          (hoffset inner c' w' hop' rfl).1 _ _
    next hinner => exact isReduced_moved hbase (fold_base hop hfold) hinner _ _
  next hnone =>
    refine .apply hargs hfold fun base c w hop hargs => ?_
    simp [hargs, movedBy?, hop] at hnone

theorem isReduced_simplify (x : Expr) : x.simplify.IsReduced := by
  induction x using Expr.operandInduction with
  | const k =>
    rw [Expr.simplify]
    exact .const k
  | var v =>
    rw [Expr.simplify]
    exact .var v
  | apply op args ih =>
    have hargs : ∀ a ∈ args.map Expr.simplify, a.IsReduced := by
      intro a ha
      obtain ⟨b, hb, rfl⟩ := List.mem_map.mp ha
      exact ih b hb
    rw [Expr.simplify, simplifyAll_eq_map]
    unfold simplifyTop
    split
    next k _ => exact .const k
    next hfold => exact isReduced_simplifyLinear hargs hfold

theorem simplifyLinear_of_isReduced (h : (Expr.apply op args).IsReduced) :
    simplifyLinear (.apply op args) = .apply op args := by
  unfold simplifyLinear
  split
  next base outer w houter =>
    obtain ⟨op', c, hop, hx, rfl⟩ := movedBy?_eq_some houter
    obtain ⟨rfl, rfl⟩ := Expr.apply.inj hx
    cases h with
    | apply _ _ hoffset =>
      obtain ⟨hbase, hoffset⟩ := hoffset base c w hop rfl
      rw [hbase]
      exact moved_signedBy hop hoffset
  next => rfl

theorem simplify_of_isReduced (h : x.IsReduced) : x.simplify = x := by
  induction h with
  | const k => rw [Expr.simplify]
  | var v => rw [Expr.simplify]
  | apply hargs hfold hoffset ih =>
    rw [Expr.simplify, simplifyAll_eq_map, List.map_congr_left ih, List.map_id', simplifyTop, hfold]
    exact simplifyLinear_of_isReduced (.apply hargs hfold hoffset)

/-- **Simplifying once is enough.** A simplified expression is reduced, so simplifying it again
gives it back. -/
theorem simplify_simplify (x : Expr) :
    x.simplify.IsReduced ∧ x.simplify.simplify = x.simplify :=
  ⟨isReduced_simplify x, simplify_of_isReduced (isReduced_simplify x)⟩

end FactLift.Sym
