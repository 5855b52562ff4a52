import FactLift.Proofs.Sym.Exact
import FactLift.Sym.Simplify

/-! Simplification keeps the value at 32 bits.

The variables of an expression are given values by putting constants in their places
(`Expr.instantiate`). `simplify_evaluateExact` says that on 32-bit constants an expression and its
simplified form then have the same exact value, or both have none, and `simplify_evaluate` that they
evaluate to the same constant. Merging constants is the only step that is not folding; over the
integers it is adding two distances (`evaluateExact_moved`). `Expr.MadeOf` names the constants,
variables and operators that an expression is made of, and simplifying puts in no others than sums
and differences. -/

namespace FactLift.Sym

/-- Induction over expressions, with the operands of an operator as a list. -/
@[elab_as_elim]
theorem Expr.operandInduction {motive : Expr → Prop} (const : ∀ c, motive (.const c))
    (var : ∀ v, motive (.var v))
    (apply : ∀ op args, (∀ a ∈ args, motive a) → motive (.apply op args)) (x : Expr) :
    motive x := by
  cases x with
  | const c => exact const c
  | var v => exact var v
  | apply op args =>
    refine apply op args fun a ha => ?_
    have hlt : sizeOf a < sizeOf args := List.sizeOf_lt_of_mem ha
    exact Expr.operandInduction const var apply a

/-! ### What an expression is made of -/

/-- The constants, variables and operators of an expression are all of these classes. -/
inductive Expr.MadeOf (P : Constant → Prop) (Q : Variable → Prop) (R : Op → Prop) : Expr → Prop
  | const {c : Constant} : P c → MadeOf P Q R (.const c)
  | var {v : Variable} : Q v → MadeOf P Q R (.var v)
  | apply {op : Op} {args : List Expr} : R op → (∀ a ∈ args, MadeOf P Q R a) →
    MadeOf P Q R (.apply op args)

variable {P : Constant → Prop} {Q : Variable → Prop} {R : Op → Prop} {x : Expr}

theorem Expr.MadeOf.binary {op : Op} {a b : Expr} (ha : a.MadeOf P Q R) (hb : b.MadeOf P Q R)
    (hop : R op) : (Expr.apply op [a, b]).MadeOf P Q R := by
  refine .apply hop fun x hx => ?_
  obtain rfl | rfl : x = a ∨ x = b := by simpa using hx
  · exact ha
  · exact hb

theorem Expr.MadeOf.op {op : Op} {args : List Expr} (h : (Expr.apply op args).MadeOf P Q R) :
    R op := by
  cases h with
  | apply hop _ => exact hop

theorem Expr.MadeOf.args {op : Op} {args : List Expr} (h : (Expr.apply op args).MadeOf P Q R) :
    ∀ a ∈ args, a.MadeOf P Q R := by
  cases h with
  | apply _ hargs => exact hargs

theorem Expr.MadeOf.operands {op : Op} {a b : Expr} (h : (Expr.apply op [a, b]).MadeOf P Q R) :
    a.MadeOf P Q R ∧ b.MadeOf P Q R :=
  ⟨h.args a (by simp), h.args b (by simp)⟩

theorem mem_constantsOf {c : Constant} {xs : List Expr} :
    c ∈ Expr.constantsOf xs ↔ ∃ a ∈ xs, c ∈ a.constants := by
  induction xs with
  | nil => simp [Expr.constantsOf]
  | cons a rest ih => simp [Expr.constantsOf, ih]

theorem Expr.MadeOf.constants (h : x.MadeOf P Q R) : ∀ c ∈ x.constants, P c := by
  induction h with
  | const hc => simpa [Expr.constants] using hc
  | var _ => simp [Expr.constants]
  | apply _ _ ih =>
    intro c hc
    rw [Expr.constants] at hc
    obtain ⟨a, ha, hc⟩ := mem_constantsOf.mp hc
    exact ih a ha c hc

theorem varsOf_eq_flatMap (xs : List Expr) : Expr.varsOf xs = xs.flatMap Expr.vars := by
  induction xs with
  | nil => rw [Expr.varsOf, List.flatMap_nil]
  | cons a rest ih => rw [Expr.varsOf, ih, List.flatMap_cons]

/-- An expression is made of what its constants and its variables are. -/
theorem Expr.madeOf (hP : ∀ c ∈ x.constants, P c) (hQ : ∀ v ∈ x.vars, Q v) :
    x.MadeOf P Q fun _ => True := by
  induction x using Expr.operandInduction with
  | const c => exact .const (hP c (by simp [Expr.constants]))
  | var v => exact .var (hQ v (by simp [Expr.vars]))
  | apply op args ih =>
    rw [Expr.constants] at hP
    rw [Expr.vars, varsOf_eq_flatMap] at hQ
    refine .apply trivial fun a ha => ih a ha ?_ ?_
    · exact fun c hc => hP c (mem_constantsOf.mpr ⟨a, ha, hc⟩)
    · exact fun v hv => hQ v (List.mem_flatMap.mpr ⟨a, ha, hv⟩)

theorem Expr.MadeOf.mono {P' : Constant → Prop} {R' : Op → Prop} (hP : ∀ c, P c → P' c)
    (hR : ∀ op, R op → R' op) (h : x.MadeOf P Q R) : x.MadeOf P' Q R' := by
  induction h with
  | const hc => exact .const (hP _ hc)
  | var hv => exact .var hv
  | apply hop _ ih => exact .apply (hR _ hop) ih

/-! ### Putting constants in the places of variables -/

mutual

/-- An expression with constants in the places of its variables. -/
def Expr.instantiate (ρ : Variable → Constant) : Expr → Expr
  | .const c => .const c
  | .var v => .const (ρ v)
  | .apply op args => .apply op (Expr.instantiateAll ρ args)

/-- A list of expressions with constants in the places of their variables. -/
def Expr.instantiateAll (ρ : Variable → Constant) : List Expr → List Expr
  | [] => []
  | a :: rest => a.instantiate ρ :: Expr.instantiateAll ρ rest

end

mutual

/-- What folds has no variables. -/
theorem instantiate_of_fold (ρ : Variable → Constant) :
    ∀ (x : Expr) {c : Constant}, x.fold = some c → x.instantiate ρ = x
  | .const c, _, _ => by rw [Expr.instantiate]
  | .var v, _, h => by
    rw [Expr.fold] at h
    contradiction
  | .apply op args, _, h => by
    rw [Expr.fold] at h
    obtain ⟨cs, hcs, -⟩ := Option.bind_eq_some_iff.mp h
    rw [Expr.instantiate, instantiateAll_of_foldAll ρ args hcs]

theorem instantiateAll_of_foldAll (ρ : Variable → Constant) :
    ∀ (xs : List Expr) {cs : List Constant}, Expr.foldAll xs = some cs →
      Expr.instantiateAll ρ xs = xs
  | [], _, _ => by rw [Expr.instantiateAll]
  | a :: rest, _, h => by
    rw [Expr.foldAll] at h
    obtain ⟨c, hc, h⟩ := Option.bind_eq_some_iff.mp h
    obtain ⟨cs, hcs, -⟩ := Option.bind_eq_some_iff.mp h
    rw [Expr.instantiateAll, instantiate_of_fold ρ a hc, instantiateAll_of_foldAll ρ rest hcs]

end

theorem instantiateAll_eq_map (ρ : Variable → Constant) (xs : List Expr) :
    Expr.instantiateAll ρ xs = xs.map (·.instantiate ρ) := by
  induction xs with
  | nil => rw [Expr.instantiateAll, List.map_nil]
  | cons a rest ih => rw [Expr.instantiateAll, ih, List.map_cons]

theorem Expr.MadeOf.instantiate {ρ : Variable → Constant} (hρ : ∀ v, Q v → P (ρ v))
    (h : x.MadeOf P Q R) : (x.instantiate ρ).MadeOf P Q R := by
  induction h with
  | const hc =>
    rw [Expr.instantiate]
    exact .const hc
  | var hv =>
    rw [Expr.instantiate]
    exact .const (hρ _ hv)
  | apply hop _ ih =>
    rw [Expr.instantiate, instantiateAll_eq_map]
    refine .apply hop fun a ha => ?_
    obtain ⟨b, hb, rfl⟩ := List.mem_map.mp ha
    exact ih b hb

/-! ### 32-bit constants -/

/-- A constant of 32 bits: an integer or an address. -/
def Constant.IsNarrow (c : Constant) : Prop :=
  c.width = .w32

theorem joinWidths_narrow {cs : List Constant} (h : ∀ c ∈ cs, c.IsNarrow) :
    joinWidths (cs.map Constant.width) = .w32 := by
  unfold joinWidths
  induction cs with
  | nil => rfl
  | cons c rest ih =>
    rw [List.map_cons, List.foldl_cons, show c.width = .w32 from h c List.mem_cons_self]
    exact ih fun c' hc' => h c' (List.mem_cons_of_mem c hc')

theorem foldable_isNarrow : Foldable Constant.IsNarrow where
  fits cs h c hc := by
    rw [joinWidths_narrow h]
    show reduce (reduce c.value.toInt c.width) .w32 = reduce c.value.toInt .w32
    rw [show c.width = .w32 from h c hc, reduce_reduce]
  closed cs h c hc := by
    rw [joinWidths_narrow h] at hc
    cases hc <;> rfl

/-- An exact value over 32-bit constants is a 32-bit integer, cut to its width. -/
theorem evaluateExact_narrow (h : x.MadeOf Constant.IsNarrow Q R) {p : Int × Width}
    (hp : x.evaluateExact = some p) : p = (reduce p.1 .w32, .w32) := by
  obtain ⟨hexact, hnarrow⟩ := fold_exact foldable_isNarrow x h.constants
  rw [hp] at hexact
  obtain ⟨c, hc, rfl⟩ := Option.map_eq_some_iff.mp hexact
  have hwidth : c.width = .w32 := hnarrow c hc
  simp only [Constant.exact, hwidth, reduce_reduce]

/-! ### Moving by a distance -/

/-- A 32-bit value moved by a distance. -/
def movedExact (distance : Int) (p : Int × Width) : Int × Width :=
  (reduce (p.1 + distance) .w32, .w32)

theorem reduce_add_reduce (a b : Int) (w : Width) : reduce (a + reduce b w) w = reduce (a + b) w :=
  Int.add_bmod_bmod

theorem reduce_reduce_add (a b : Int) (w : Width) : reduce (reduce a w + b) w = reduce (a + b) w :=
  Int.bmod_add_bmod

theorem reduce_sub_reduce (a b : Int) (w : Width) : reduce (a - reduce b w) w = reduce (a - b) w :=
  Int.sub_bmod_bmod

/-- Only the distance at 32 bits matters. -/
theorem movedExact_congr {d d' : Int} (h : reduce d .w32 = reduce d' .w32) :
    movedExact d = movedExact d' := by
  funext p
  rw [movedExact, ← reduce_add_reduce, h, reduce_add_reduce, movedExact]

theorem movedExact_movedExact (d d' : Int) (p : Int × Width) :
    movedExact d' (movedExact d p) = movedExact (d + d') p := by
  simp only [movedExact, reduce_reduce_add, Int.add_assoc]

theorem reduce_toInt_neg (v : Int64) (w : Width) : reduce (-v).toInt w = reduce (-v.toInt) w := by
  rw [Int64.toInt_neg, reduce_wrapped]

/-- The word that is the negative of a word, negated again. -/
theorem reduce_neg_neg {v c : Int64} {w : Width} (h : reduce c.toInt w = reduce (-v).toInt w) :
    reduce (-c).toInt w = reduce v.toInt w := by
  have hneg (z : Int) : reduce (-z) w = reduce (-reduce z w) w := by
    rw [← Int.zero_sub, ← Int.zero_sub, reduce_sub_reduce]
  rw [reduce_toInt_neg, hneg, h, reduce_toInt_neg, ← hneg, Int.neg_neg]

theorem reduce_toInt_add (a b : Int64) (w : Width) :
    reduce (a + b).toInt w = reduce (a.toInt + b.toInt) w := by
  rw [Int64.toInt_add, reduce_wrapped]

/-- Adding or subtracting a 32-bit constant moves the value. -/
theorem evaluateExact_linear (h : x.MadeOf Constant.IsNarrow Q R) {op : Op}
    (hop : isLinear op = true) (c : Int64) :
    (Expr.apply op [x, .const (.int c .w32)]).evaluateExact =
      x.evaluateExact.map (movedExact (signedBy op c).toInt) := by
  rw [evaluateExact_apply]
  cases hx : x.evaluateExact with
  | none => simp [Expr.evaluateAll, hx]
  | some p =>
    obtain ⟨v, w⟩ := p
    obtain ⟨hv, rfl⟩ := Prod.mk.inj (evaluateExact_narrow h hx)
    have hall : Expr.evaluateAll [x, .const (.int c .w32)] =
        some [(v, .w32), (reduce c.toInt .w32, .w32)] := by
      simp [Expr.evaluateAll, Expr.evaluateExact, hx, Constant.value, Constant.width]
    rw [hall]
    cases op with
    | plus =>
      show some (reduce (reduce v .w32 + reduce (reduce c.toInt .w32) .w32) .w32, Width.w32) = _
      rw [reduce_reduce, reduce_add_reduce, reduce_reduce_add]
      rfl
    | minus =>
      show some (reduce (reduce v .w32 - reduce (reduce c.toInt .w32) .w32) .w32, Width.w32) = _
      have hneg : movedExact (signedBy .minus c).toInt = movedExact (-c.toInt) :=
        movedExact_congr (reduce_toInt_neg c .w32)
      rw [hneg, reduce_reduce, reduce_sub_reduce, Int.sub_eq_add_neg, reduce_reduce_add]
      rfl
    | _ => contradiction

/-- What is left of merging constants: the value moved by the total. -/
theorem evaluateExact_moved (h : x.MadeOf Constant.IsNarrow Q R) (total : Int64) :
    (moved x total .w32).evaluateExact = x.evaluateExact.map (movedExact total.toInt) := by
  have hcut (v : Int64) : reduce (Width.w32.normalize v).toInt .w32 = reduce v.toInt .w32 := by
    rw [toInt_normalize, reduce_reduce]
  have htotal := hcut total
  simp only [moved]
  split
  · rename_i hzero
    rw [beq_iff_eq.mp hzero] at htotal
    cases hx : x.evaluateExact with
    | none => rfl
    | some p =>
      rw [Option.map_some, movedExact_congr htotal.symm, evaluateExact_narrow h hx]
      simp [movedExact, reduce_reduce]
  · split
    · rw [Expr.binary, Constant.atWidth, evaluateExact_linear h rfl]
      refine congrArg (x.evaluateExact.map ·) (movedExact_congr ?_)
      rw [← htotal]
      exact reduce_neg_neg (hcut _)
    · rw [Expr.binary, Constant.atWidth, evaluateExact_linear h rfl]
      refine congrArg (x.evaluateExact.map ·) (movedExact_congr ?_)
      exact (hcut _).trans htotal

/-! ### Simplifying -/

/-- What an operand that is a base moved by an integer looks like. -/
theorem movedBy?_eq_some {base : Expr} {d : Int64} {w : Width}
    (h : movedBy? x = some (base, d, w)) :
    ∃ op c, isLinear op = true ∧ x = .apply op [base, .const (.int c w)] ∧ d = signedBy op c := by
  unfold movedBy? at h
  split at h
  · rename_i op base' c w'
    split at h
    · rename_i hop
      obtain ⟨rfl, hd, rfl⟩ : base' = base ∧ signedBy op c = d ∧ w' = w := by simpa using h
      exact ⟨op, c, hop, rfl, hd.symm⟩
    · contradiction
  · contradiction

theorem instantiate_moved (ρ : Variable → Constant) (base : Expr) (total : Int64) (w : Width) :
    (moved base total w).instantiate ρ = moved (base.instantiate ρ) total w := by
  simp only [moved]
  split
  · rfl
  · split <;> simp [Expr.binary, Expr.instantiate, Expr.instantiateAll]

/-- An operand that is a base moved by an integer has the value of the base, moved. -/
theorem evaluateExact_movedBy {ρ : Variable → Constant} (hρ : ∀ v, Q v → (ρ v).IsNarrow)
    (h : x.MadeOf Constant.IsNarrow Q R) {base : Expr} {d : Int64} {w : Width}
    (hx : movedBy? x = some (base, d, w)) :
    w = .w32 ∧ base.MadeOf Constant.IsNarrow Q R ∧
      (x.instantiate ρ).evaluateExact =
        (base.instantiate ρ).evaluateExact.map (movedExact d.toInt) := by
  obtain ⟨op, c, hop, rfl, rfl⟩ := movedBy?_eq_some hx
  obtain ⟨hbase, hc⟩ := h.operands
  have hnarrow : (Constant.int c w).IsNarrow := hc.constants _ (by simp [Expr.constants])
  obtain rfl : w = .w32 := hnarrow
  refine ⟨rfl, hbase, ?_⟩
  rw [Expr.instantiate, instantiateAll_eq_map]
  simp only [List.map_cons, List.map_nil, Expr.instantiate]
  exact evaluateExact_linear (hbase.instantiate hρ) hop c

theorem simplifyLinear_evaluateExact {ρ : Variable → Constant} (hρ : ∀ v, Q v → (ρ v).IsNarrow)
    (h : x.MadeOf Constant.IsNarrow Q R) :
    ((simplifyLinear x).instantiate ρ).evaluateExact = (x.instantiate ρ).evaluateExact := by
  unfold simplifyLinear
  split
  · rename_i base outer w houter
    obtain ⟨rfl, hbase, hx⟩ := evaluateExact_movedBy hρ h houter
    split
    · rename_i inner c w' hinner
      obtain ⟨rfl, hinner, hb⟩ := evaluateExact_movedBy hρ hbase hinner
      have htotal : movedExact (c + outer).toInt = movedExact (c.toInt + outer.toInt) :=
        movedExact_congr (reduce_toInt_add c outer .w32)
      rw [hx, hb, instantiate_moved, show Width.w32.join .w32 = .w32 from rfl,
        evaluateExact_moved (hinner.instantiate hρ), htotal, Option.map_map]
      exact Option.map_congr fun p _ => (movedExact_movedExact _ _ p).symm
    · rw [hx, instantiate_moved, evaluateExact_moved (hbase.instantiate hρ)]
  · rfl

theorem simplifyTop_evaluateExact {ρ : Variable → Constant} (hρ : ∀ v, Q v → (ρ v).IsNarrow)
    (h : x.MadeOf Constant.IsNarrow Q R) :
    ((simplifyTop x).instantiate ρ).evaluateExact = (x.instantiate ρ).evaluateExact := by
  unfold simplifyTop
  split
  · rename_i c hc
    obtain ⟨hexact, -⟩ := fold_exact foldable_isNarrow x h.constants
    rw [instantiate_of_fold ρ x hc, ← hexact, hc, Expr.instantiate, Expr.evaluateExact]
    rfl
  · exact simplifyLinear_evaluateExact hρ h

theorem simplifyAll_eq_map (xs : List Expr) : Expr.simplifyAll xs = xs.map Expr.simplify := by
  induction xs with
  | nil => rw [Expr.simplifyAll, List.map_nil]
  | cons a rest ih => rw [Expr.simplifyAll, ih, List.map_cons]

theorem settleAll_eq_map (xs : List Expr) : Expr.settleAll xs = xs.map Expr.settle := by
  induction xs with
  | nil => rw [Expr.settleAll, List.map_nil]
  | cons a rest ih => rw [Expr.settleAll, ih, List.map_cons]

/-- Merging constants puts in only a constant that the constants at hand add up to. -/
theorem simplifyLinear_madeOf (hP : Foldable P) (hplus : R .plus) (hminus : R .minus)
    (h : x.MadeOf P Q R) : (simplifyLinear x).MadeOf P Q R := by
  have hmoved {base : Expr} {total : Int64} {cs : List Constant} (hbase : base.MadeOf P Q R)
      (hcs : ∀ c ∈ cs, P c) :
      (moved base total (joinWidths (cs.map Constant.width))).MadeOf P Q R := by
    have hc (v : Int64) := Expr.MadeOf.const (Q := Q) (R := R) (hP.closed cs hcs _ (.word v))
    simp only [moved]
    split
    · exact hbase
    · split
      · exact hbase.binary (hc _) hminus
      · exact hbase.binary (hc _) hplus
  unfold simplifyLinear
  split
  · rename_i base outer w houter
    obtain ⟨op, c, -, rfl, rfl⟩ := movedBy?_eq_some houter
    obtain ⟨hbase, hc⟩ := h.operands
    have hc : P (.int c w) := hc.constants _ (by simp [Expr.constants])
    split
    · rename_i inner d w' hinner
      obtain ⟨op', c', -, rfl, rfl⟩ := movedBy?_eq_some hinner
      obtain ⟨hinner, hc'⟩ := hbase.operands
      have hc' : P (.int c' w') := hc'.constants _ (by simp [Expr.constants])
      have hjoin : w'.join w = joinWidths ([Constant.int c' w', .int c w].map Constant.width) := rfl
      rw [hjoin]
      exact hmoved hinner (by simpa using ⟨hc', hc⟩)
    · have hjoin : w = joinWidths ([Constant.int c w].map Constant.width) := rfl
      rw [hjoin]
      exact hmoved hbase (by simpa using hc)
  · exact h

/-- A simplified expression is made of the same, and of sums and differences. -/
theorem Expr.MadeOf.simplify (hP : Foldable P) (hplus : R .plus) (hminus : R .minus)
    (h : x.MadeOf P Q R) : x.simplify.MadeOf P Q R := by
  induction h with
  | const hc =>
    rw [Expr.simplify]
    exact .const hc
  | var hv =>
    rw [Expr.simplify]
    exact .var hv
  | @apply op args hop _ ih =>
    rw [Expr.simplify, simplifyAll_eq_map]
    have hargs : (Expr.apply op (args.map Expr.simplify)).MadeOf P Q R := by
      refine .apply hop fun a ha => ?_
      obtain ⟨b, hb, rfl⟩ := List.mem_map.mp ha
      exact ih b hb
    unfold simplifyTop
    split
    · rename_i c hc
      exact .const ((fold_exact hP _ hargs.constants).2 c hc)
    · exact simplifyLinear_madeOf hP hplus hminus hargs

theorem evaluateAll_congr {f g : Expr → Expr} {xs : List Expr}
    (h : ∀ a ∈ xs, (f a).evaluateExact = (g a).evaluateExact) :
    Expr.evaluateAll (xs.map f) = Expr.evaluateAll (xs.map g) := by
  induction xs with
  | nil => rfl
  | cons a rest ih =>
    obtain ⟨ha, hrest⟩ := List.forall_mem_cons.mp h
    rw [List.map_cons, List.map_cons, Expr.evaluateAll, Expr.evaluateAll, ha, ih hrest]

/-- Simplifying keeps the value at 32 bits, whatever the variables stand for. -/
theorem simplify_evaluateExact {ρ : Variable → Constant} (hρ : ∀ v, Q v → (ρ v).IsNarrow)
    (h : x.MadeOf Constant.IsNarrow Q fun _ => True) :
    (x.simplify.instantiate ρ).evaluateExact = (x.instantiate ρ).evaluateExact := by
  induction h with
  | const _ => rw [Expr.simplify]
  | var _ => rw [Expr.simplify]
  | @apply op args _ hargs ih =>
    have hargs' :
        (Expr.apply op (args.map Expr.simplify)).MadeOf Constant.IsNarrow Q fun _ => True := by
      refine .apply trivial fun a ha => ?_
      obtain ⟨b, hb, rfl⟩ := List.mem_map.mp ha
      exact (hargs b hb).simplify foldable_isNarrow trivial trivial
    rw [Expr.simplify, simplifyAll_eq_map, simplifyTop_evaluateExact hρ hargs', Expr.instantiate,
      Expr.instantiate, instantiateAll_eq_map, instantiateAll_eq_map, List.map_map,
      evaluateExact_apply, evaluateExact_apply]
    have hvalues : Expr.evaluateAll (args.map ((·.instantiate ρ) ∘ Expr.simplify)) =
        Expr.evaluateAll (args.map (·.instantiate ρ)) := evaluateAll_congr ih
    rw [hvalues]

/-- **Simplifying keeps the value.** With 32-bit constants in the places of the variables, an
expression over 32-bit constants and addresses evaluates to the same constant before and after it is
simplified, or both times to none. Constants need not be normal, and operators may have any number
of operands. -/
theorem simplify_evaluate (x : Expr) (hx : ∀ c ∈ x.constants, c.IsNarrow)
    (ρ : Variable → Constant) (hρ : ∀ v ∈ x.vars, (ρ v).IsNarrow) :
    (x.instantiate ρ).evaluate = (x.simplify.instantiate ρ).evaluate := by
  have hmade : x.MadeOf Constant.IsNarrow (fun v => (ρ v).IsNarrow) fun _ => True :=
    Expr.madeOf hx hρ
  rw [Expr.evaluate, Expr.evaluate, simplify_evaluateExact (fun _ hv => hv) hmade]

/-- A constant beyond 32 bits and another one cancel out, and the address that the base is then
multiplied by counts as minus one. -/
theorem simplify_evaluate_of_cancelled :
    let base : Expr := .var ⟨"R0", 1, .register "R0"⟩
    let x : Expr := .apply .mult
      [.apply .minus [.apply .plus [base, .const (.int 0x100000007 .w32)], .const (.int 7 .w32)],
        .const (.address 0xffffffff)]
    let ρ : Variable → Constant := fun _ => .int 5 .w32
    (∀ c ∈ x.constants, c.IsNarrow) ∧ (∀ v ∈ x.vars, (ρ v).IsNarrow) ∧
      x.simplify = .apply .mult [base, .const (.address 0xffffffff)] ∧
      (x.instantiate ρ).evaluate = (x.simplify.instantiate ρ).evaluate ∧
      (x.instantiate ρ).evaluate = some (.int (-5) .w32) := by
  intro base x ρ
  have hx : ∀ c ∈ x.constants, c.IsNarrow := by
    intro c hc
    obtain rfl | rfl | rfl :
        c = .int 0x100000007 .w32 ∨ c = .int 7 .w32 ∨ c = .address 0xffffffff := by
      simpa [x, base, Expr.constants, Expr.constantsOf] using hc
    all_goals rfl
  exact ⟨hx, fun _ _ => rfl, rfl, simplify_evaluate x hx ρ fun _ _ => rfl, by decide⟩

end FactLift.Sym
