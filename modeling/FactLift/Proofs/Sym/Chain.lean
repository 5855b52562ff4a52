import FactLift.Proofs.Sym.NormalForm
import Mathlib.Data.List.Induction

/-! Chains of constants behind a base.

A chain adds constants to a base and subtracts others, one after the other. Each link is merged into
what the links before it came to, at 32 bits and with the sign written as an operator; what is left
is the base moved by the total (`simplify_chain`). However often the sums went around on the way, it
is enough to cut the total to 32 bits once. -/

namespace FactLift.Sym

/-- A link of a chain: a 32-bit constant that is added or subtracted. -/
inductive Link
  | plus (c : Int64)
  | minus (c : Int64)
deriving DecidableEq, Repr

namespace Link

/-- The operator in front of the constant. -/
def op : Link → Op
  | plus _ => .plus
  | minus _ => .minus

def constant : Link → Int64
  | plus c => c
  | minus c => c

/-- How far the link moves a base. -/
def distance : Link → Int
  | plus c => c.toInt
  | minus c => -c.toInt

/-- The total of the links of a chain. -/
def total (links : List Link) : Int :=
  links.foldl (fun t l => t + l.distance) 0

theorem isLinear_op (l : Link) : isLinear l.op = true := by
  cases l <;> rfl

theorem reduce_signedBy (l : Link) (w : Width) :
    reduce (signedBy l.op l.constant).toInt w = reduce l.distance w := by
  cases l with
  | plus c => rfl
  | minus c => exact reduce_toInt_neg c w

theorem total_concat (links : List Link) (l : Link) :
    total (links ++ [l]) = total links + l.distance := by
  rw [total, List.foldl_concat, total]

end Link

/-- A base behind which the constants of a chain stand, the first one next to it. -/
def Expr.chain (base : Expr) (links : List Link) : Expr :=
  links.foldl (fun x l => .binary l.op x (.const (.int l.constant .w32))) base

theorem chain_concat (base : Expr) (links : List Link) (l : Link) :
    base.chain (links ++ [l]) =
      .binary l.op (base.chain links) (.const (.int l.constant .w32)) := by
  rw [Expr.chain, List.foldl_concat, Expr.chain]

section

variable {base : Expr} {d d' : Int64} {w : Width}

/-! ### Moving a base -/

theorem reduce_toInt_ofInt (z : Int) (w : Width) : reduce (Int64.ofInt z).toInt w = reduce z w := by
  rw [Int64.toInt_ofInt]
  exact reduce_wrapped z w

theorem normalize_eq_iff :
    w.normalize d = w.normalize d' ↔ reduce d.toInt w = reduce d'.toInt w := by
  rw [← Int64.toInt_inj, toInt_normalize, toInt_normalize]

theorem normalize_add_congr (h : w.normalize d = w.normalize d') (e : Int64) :
    w.normalize (d + e) = w.normalize (d' + e) := by
  rw [normalize_eq_iff] at h ⊢
  rw [reduce_toInt_add, reduce_toInt_add, ← reduce_reduce_add, h, reduce_reduce_add]

/-- Only the distance at its width matters. -/
theorem moved_congr (base : Expr) (h : w.normalize d = w.normalize d') :
    moved base d w = moved base d' w := by
  simp only [moved, h]

/-- A base is moved back to itself, or a constant stands behind it. -/
theorem moved_cases (base : Expr) (d : Int64) (w : Width) :
    (w.normalize d = w.normalize 0 ∧ moved base d w = base) ∨
      ∃ op c, isLinear op = true ∧ moved base d w = .apply op [base, .const (.int c w)] ∧
        w.normalize (signedBy op c) = w.normalize d := by
  simp only [moved]
  split
  next hzero =>
    have hstill : w.normalize 0 = 0 := by cases w <;> rfl
    exact .inl ⟨(beq_iff_eq.mp hzero).trans hstill.symm, rfl⟩
  next =>
    right
    split
    next =>
      refine ⟨.minus, _, rfl, rfl, ?_⟩
      rw [signedBy, if_pos rfl, normalize_neg_normalize_neg, normalize_normalize]
    next =>
      refine ⟨.plus, _, rfl, rfl, ?_⟩
      rw [signedBy, if_neg (by decide), normalize_normalize, normalize_normalize]

theorem fold_moved (hfold : base.fold = none) (d : Int64) (w : Width) :
    (moved base d w).fold = none := by
  obtain ⟨-, h⟩ | ⟨op, c, -, h, -⟩ := moved_cases base d w
  · rw [h, hfold]
  · rw [h, fold_offset op _ hfold]

theorem movedBy?_linear {op : Op} (hop : isLinear op = true) (base : Expr) (c : Int64) (w : Width) :
    movedBy? (.apply op [base, .const (.int c w)]) = some (base, signedBy op c, w) := by
  simp [movedBy?, hop]

/-- A base that was moved is moved on. -/
theorem simplifyLinear_moved (hmoved : movedBy? base = none) {op : Op} (hop : isLinear op = true)
    (c : Int64) :
    simplifyLinear (.apply op [moved base d w, .const (.int c w)]) =
      moved base (d + signedBy op c) w := by
  have hjoin : w.join w = w := by cases w <;> rfl
  rw [simplifyLinear, movedBy?_linear hop]
  -- What the links before came to is nothing, or a constant behind the base.
  obtain ⟨hzero, h⟩ | ⟨op', c', hop', h, hd⟩ := moved_cases base d w
  · simp only [h, hmoved]
    refine moved_congr base ?_
    rw [normalize_add_congr hzero, Int64.zero_add]
  · simp only [h, movedBy?_linear hop', hjoin]
    exact moved_congr base (normalize_add_congr hd _)

/-- **A chain comes to its total.** Simplifying a chain behind a base that has nothing to simplify
moves the base by the total of the chain. -/
theorem simplify_chain (hbase : base.simplify = base) (hfold : base.fold = none)
    (hmoved : movedBy? base = none) (links : List Link) :
    (base.chain links).simplify = moved base (.ofInt (Link.total links)) .w32 := by
  induction links using List.reverseRecOn with
  | nil => exact hbase
  | append_singleton links l ih =>
    have hstep : (base.chain (links ++ [l])).simplify = simplifyTop
        (.apply l.op [(base.chain links).simplify, .const (.int l.constant .w32)]) := by
      rw [chain_concat, Expr.binary, Expr.simplify, simplifyAll_eq_map]
      simp [Expr.simplify]
    rw [hstep, ih, simplifyTop, fold_offset _ _ (fold_moved hfold _ _)]
    dsimp only
    rw [simplifyLinear_moved hmoved l.isLinear_op, Link.total_concat]
    refine moved_congr base (normalize_eq_iff.mpr ?_)
    rw [reduce_toInt_add, ← reduce_add_reduce, l.reduce_signedBy, reduce_add_reduce,
      ← reduce_reduce_add, reduce_toInt_ofInt, reduce_reduce_add, reduce_toInt_ofInt]

theorem simplify_var_chain (v : Variable) (links : List Link) :
    ((Expr.var v).chain links).simplify = moved (.var v) (.ofInt (Link.total links)) .w32 :=
  simplify_chain (by rw [Expr.simplify]) (by rw [Expr.fold]) rfl links

/-- A chain that comes to nothing leaves the variable behind which it stands. -/
theorem var_of_simplify_chain {v v' : Variable} {links : List Link}
    (h : ((Expr.var v).chain links).simplify = .var v') : v' = v := by
  rw [simplify_var_chain] at h
  obtain ⟨-, hmoved⟩ | ⟨op, c, -, hmoved, -⟩ :=
    moved_cases (.var v) (.ofInt (Link.total links)) .w32
  · exact Expr.var.inj (h.symm.trans hmoved)
  · cases h.symm.trans hmoved

/-! ### Frame offsets -/

/-- The frame offset that a total comes to: the total at 32 bits. The most negative one is its own
negative there, and is written as the positive one. -/
def frameOffset (total : Int) : Int64 :=
  let t := reduce total .w32
  .ofInt (if t = -2 ^ 31 then 2 ^ 31 else t)

theorem reduce_range (z : Int) : -2 ^ 31 ≤ reduce z .w32 ∧ reduce z .w32 < 2 ^ 31 := by
  have hlow : -((2 ^ 32 : Nat) / 2 : Int) ≤ z.bmod (2 ^ 32) := Int.le_bmod (by decide)
  have hhigh : z.bmod (2 ^ 32) < ((2 ^ 32 : Nat) + 1) / 2 := Int.bmod_lt (by decide)
  exact ⟨hlow, hhigh⟩

theorem toInt_frameOffset (total : Int) :
    (frameOffset total).toInt =
      if reduce total .w32 = -2 ^ 31 then 2 ^ 31 else reduce total .w32 := by
  obtain ⟨hlow, hhigh⟩ := reduce_range total
  rw [frameOffset, Int64.toInt_ofInt_of_le] <;> split <;> omega

/-- A negative constant behind the base is subtracted. -/
theorem toInt_neg_normalize_neg {t : Int64} (hlow : -2 ^ 31 ≤ t.toInt) (hneg : t.toInt < 0) :
    (-Width.w32.normalize (-t)).toInt = if t.toInt = -2 ^ 31 then 2 ^ 31 else t.toInt := by
  have hc : (Width.w32.normalize (-t)).toInt = (-t.toInt).bmod (2 ^ 32) := by
    rw [toInt_normalize, reduce_toInt_neg]
    rfl
  rw [Int64.toInt_neg, hc]
  split
  next h =>
    rw [h]
    decide
  next h =>
    rw [Int.bmod_eq_of_le (n := -t.toInt) (by omega) (by omega), Int.neg_neg]
    exact Int.bmod_eq_of_le (by omega) (by omega)

/-- The stack pointer at entry, moved. -/
theorem stackOffset?_moved {v : Variable} (hv : v.isStackBase = true) (total : Int) :
    (moved (.var v) (.ofInt total) .w32).stackOffset? = some (frameOffset total) := by
  have ht : (Width.w32.normalize (.ofInt total)).toInt = reduce total .w32 := by
    rw [toInt_normalize, reduce_toInt_ofInt]
  have hlow := (reduce_range total).1
  have hoffset := toInt_frameOffset total
  rw [← ht] at hlow hoffset
  have hnormal := normalize_normalize .w32 (.ofInt total)
  simp only [moved]
  generalize Width.w32.normalize (.ofInt total) = t at *
  split
  next hzero =>
    obtain rfl : t = 0 := beq_iff_eq.mp hzero
    simp [Expr.stackOffset?, hv, ← Int64.toInt_inj, hoffset]
  next =>
    split
    next hneg =>
      have hneg : t.toInt < 0 := Int64.lt_iff_toInt_lt.mp hneg
      have hc := toInt_neg_normalize_neg hlow hneg
      simp only [Expr.binary, Expr.stackOffset?, hv, if_true, Constant.atWidth, Constant.value,
        Option.some.injEq, ← Int64.toInt_inj, hoffset, hc]
    next hnonneg =>
      have hle : 0 ≤ t.toInt := Int64.le_iff_toInt_le.mp (Int64.not_lt.mp hnonneg)
      rw [if_neg (by omega)] at hoffset
      simp only [Expr.binary, Expr.stackOffset?, hv, if_true, Constant.atWidth, Constant.value,
        Option.some.injEq, ← Int64.toInt_inj, hoffset, hnormal]

/-- A chain behind the stack pointer at entry is the address at a frame offset. -/
theorem stackOffset?_chain {v : Variable} (hv : v.isStackBase = true) (links : List Link) :
    ((Expr.var v).chain links).simplify.stackOffset? = some (frameOffset (Link.total links)) := by
  rw [simplify_var_chain, stackOffset?_moved hv]

end

end FactLift.Sym
