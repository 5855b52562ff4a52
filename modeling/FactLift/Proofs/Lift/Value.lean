import FactLift.Proofs.C.Placeholder
import FactLift.Proofs.Lift.RegisterForm

/-! Lifting keeps the value.

An expression over registers and 32-bit integers is lifted to a C expression over `int` that has the
same value, whatever is in the registers, unless a part could not be resolved.

`Represents x e` says so of an expression and its tree. It holds of every tree that the expression
may be lifted to (`TreeOf.represents`). Simplification is accounted for by the exact value
(`Sym.simplify_evaluateExact`), so the value of the expression as it was given is that of the tree
(`liftExpr_value`). -/

namespace FactLift

open C

namespace Sym

def registerConstant (σ : String → Int32) (v : Variable) : Constant :=
  .int (σ (v.register?.getD v.name)).toInt64 .w32

end Sym

/-! ### Trees that have the value of an expression -/

/-- The tree is of type `int`, as far as its type is known, and has the value of the expression if
no part of it is a placeholder. -/
structure Represents (x : Sym.Expr) (e : Expr) : Prop where
  type : e.IsIntTyped
  value : e.reasons = [] → ∀ σ p, (x.instantiate (Sym.registerConstant σ)).evaluateExact = some p →
    ∃ n, p = exactInt n ∧ e.intValue? σ = some n

namespace Represents

open FactLift.Sym (evaluateExact_apply instantiateAll_eq_map)

theorem int (v : Int64) : Represents (.const (.int v .w32)) (.int v .int) where
  type := isIntTyped_int v
  value _ σ p hp := by
    rw [Sym.Expr.instantiate, Sym.Expr.evaluateExact] at hp
    refine ⟨v.toInt32, ?_, by rw [Expr.intValue?]⟩
    rw [← Option.some.inj hp, exactInt, Int64.toInt_toInt32]
    rfl

theorem register {name : String} {number : Int64} {r : String} {s : Symbol} (hname : s.name = r)
    (htype : s.type = none) : Represents (.var ⟨name, number, .register r⟩) (.ofSymbol s) where
  type g := by simp [Expr.ofSymbol, Expr.typeOf, Lval.typeOf, htype]
  value _ σ p hp := by
    rw [Sym.Expr.instantiate, Sym.Expr.evaluateExact] at hp
    refine ⟨σ r, ?_, by rw [Expr.ofSymbol, Expr.intValue?, hname]⟩
    rw [← Option.some.inj hp]
    show (Sym.reduce (σ r).toInt64.toInt .w32, Width.w32) = exactInt (σ r)
    rw [Int32.toInt_toInt64, reduce_toInt, exactInt]

theorem unresolved (x : Sym.Expr) (reason : String) : Represents x (.unresolved reason) where
  type g := by simp [Expr.typeOf]
  value h := by simp [Expr.reasons] at h

variable {a b : Sym.Expr} {e f : Expr}

theorem cast (h : Represents a e) : Represents a (.cast (.int .int) e) where
  type g := by simp [Expr.typeOf]
  value hr σ p hp := by
    rw [Expr.reasons] at hr
    rw [Expr.intValue?]
    exact h.value hr σ p hp

/-- The value of an operator with one operand. -/
theorem value_unary (ha : Represents a e) (hr : e.reasons = []) {op : Sym.Op} {σ : String → Int32}
    {p : Int × Width}
    (hp : ((Sym.Expr.apply op [a]).instantiate (Sym.registerConstant σ)).evaluateExact = some p) :
    ∃ m, e.intValue? σ = some m ∧ (Sym.evaluateOp op .w32 [m.toInt]).map Sym.cut = some p := by
  rw [Sym.Expr.instantiate, instantiateAll_eq_map, evaluateExact_apply] at hp
  obtain ⟨values, hvalues, hp⟩ := Option.bind_eq_some_iff.mp hp
  rw [List.map_singleton, Sym.Expr.evaluateAll] at hvalues
  obtain ⟨q, hq, hvalues⟩ := Option.bind_eq_some_iff.mp hvalues
  obtain rfl : [q] = values := Option.some.inj hvalues
  obtain ⟨m, rfl, hm⟩ := ha.value hr σ q hq
  refine ⟨m, hm, ?_⟩
  rw [← hp]
  exact (evaluateApply_ints op [m]).symm

/-- The values of the operands of an operator with two. -/
theorem value_binary (ha : Represents a e) (hb : Represents b f) (he : e.reasons = [])
    (hf : f.reasons = []) {op : Sym.Op} {σ : String → Int32} {p : Int × Width}
    (hp : ((Sym.Expr.apply op [a, b]).instantiate (Sym.registerConstant σ)).evaluateExact =
      some p) :
    ∃ m n, e.intValue? σ = some m ∧ f.intValue? σ = some n ∧
      (Sym.evaluateOp op .w32 [m.toInt, n.toInt]).map Sym.cut = some p := by
  rw [Sym.Expr.instantiate, instantiateAll_eq_map, evaluateExact_apply] at hp
  obtain ⟨values, hvalues, hp⟩ := Option.bind_eq_some_iff.mp hp
  simp only [List.map_cons, List.map_nil, Sym.Expr.evaluateAll] at hvalues
  obtain ⟨q, hq, hvalues⟩ := Option.bind_eq_some_iff.mp hvalues
  obtain ⟨rest, hrest, hvalues⟩ := Option.bind_eq_some_iff.mp hvalues
  obtain ⟨q', hq', hrest⟩ := Option.bind_eq_some_iff.mp hrest
  obtain rfl : [q'] = rest := Option.some.inj hrest
  obtain rfl : [q, q'] = values := Option.some.inj hvalues
  obtain ⟨m, rfl, hm⟩ := ha.value he σ q hq
  obtain ⟨n, rfl, hn⟩ := hb.value hf σ q' hq'
  exact ⟨m, n, hm, hn, (evaluateApply_ints op [m, n]).symm.trans hp⟩

/-- An operator with one operand and its counterpart. -/
theorem unary {op : Sym.Op} {o : UnOp} (ho : op.unOp? = some o) (ha : Represents a e) :
    Represents (.apply op [a]) (.unary o e) where
  type := ha.type.unary o
  value hr σ p hp := by
    rw [Expr.reasons] at hr
    obtain ⟨m, hm, hvalue⟩ := ha.value_unary hr hp
    rw [onInt_exact ho m] at hvalue
    exact ⟨o.onInt m, (Option.some.inj hvalue).symm, by rw [Expr.intValue?, hm, Option.map_some]⟩

/-- An operator with two operands and its counterpart. -/
theorem binary {op : Sym.Op} {o : BinOp} (ho : op.binOp? = some o) (hop : op ≠ .lsr)
    (ha : Represents a e) (hb : Represents b f) :
    Represents (.apply op [a, b]) (.binary o e f) where
  type := ha.type.binary hb.type o
  value hr σ p hp := by
    rw [Expr.reasons] at hr
    obtain ⟨he, hf⟩ := List.append_eq_nil_iff.mp hr
    obtain ⟨m, n, hm, hn, hvalue⟩ := ha.value_binary hb he hf hp
    rw [onInt?_exact ho hop m n] at hvalue
    obtain ⟨k, hk, rfl⟩ := Option.map_eq_some_iff.mp hvalue
    exact ⟨k, rfl, by rw [intValue?_binary hm hn, hk]⟩

/-- The low part of a value, as a mask. -/
theorem mask {op : Sym.Op} {low : Int64}
    (hop : ∀ m : Int32, (Sym.evaluateOp op .w32 [m.toInt]).map Sym.cut =
      some (exactInt (m &&& low.toInt32)))
    (ha : Represents a e) : Represents (.apply op [a]) (.binary .band e (.int low .int)) where
  type := ha.type.binary (isIntTyped_int low) .band
  value hr σ p hp := by
    rw [Expr.reasons] at hr
    obtain ⟨he, -⟩ := List.append_eq_nil_iff.mp hr
    obtain ⟨m, hm, hvalue⟩ := ha.value_unary he hp
    rw [hop m] at hvalue
    refine ⟨m &&& low.toInt32, (Option.some.inj hvalue).symm, ?_⟩
    rw [intValue?_binary hm (by rw [Expr.intValue?]), BinOp.onInt?]

/-- One byte of a value, as a shift and a mask. -/
theorem byte {n bits : Int64} (hn : (Sym.Constant.int n .w32).IsNormal)
    (hbits : timesEight? n = some bits) (hb : Represents b f) :
    Represents (.apply .xbyte [.const (.int n .w32), b]) (byteAt f bits) where
  type := (hb.type.binary (isIntTyped_int bits) .shiftRt).binary (isIntTyped_int 0xff) .band
  value hr σ p hp := by
    simp only [byteAt, Expr.reasons, List.append_nil] at hr
    obtain ⟨k, m, hk, hm, hvalue⟩ := (int n).value_binary hb (by rw [Expr.reasons]) hr hp
    obtain rfl : n.toInt32 = k := Option.some.inj (by rw [← hk, Expr.intValue?])
    have hword : n.toInt32.toInt = n.toInt := by
      rw [Int64.toInt_toInt32]
      exact Sym.reduce_of_normal hn
    have hwide : 0 ≤ n.toInt32.toInt → n.toInt32.toInt < 4 →
        bits.toInt32.toInt = 8 * n.toInt32.toInt := by
      intro hlow hhigh
      rw [Int64.toInt_toInt32, timesEight?_eq_some hbits, ← hword, Int.bmod_eq_of_le] <;> omega
    obtain ⟨s, hs, rfl⟩ := xbyte_exact hwide hvalue
    have hshift : (Expr.binary .shiftRt f (.int bits .int)).intValue? σ = some s := by
      rw [intValue?_binary hm (by rw [Expr.intValue?]), hs]
    refine ⟨s &&& 0xff, rfl, ?_⟩
    rw [byteAt, intValue?_binary hshift (by rw [Expr.intValue?])]
    rfl

end Represents

/-- A tree of an expression over registers has its value. -/
theorem TreeOf.represents {x : Sym.Expr} {e : Expr} (h : TreeOf x e) (hx : x.OverRegisters) :
    Represents x e := by
  induction h with
  | int v => exact .int v
  | register hname htype => exact .register hname htype
  | @masked op a e mask hmask ha ih =>
    have he : Represents a e := ih (hx.args a (by simp))
    cases op <;> first
      | contradiction
      | cases hmask
    · exact he.mask lsb_exact
    · exact he.mask lsh_exact
  | unary ho ha ih => exact (ih (hx.args _ (by simp))).unary ho
  | @shifted op signed a b e f hshift ha hb iha ihb =>
    obtain ⟨rfl, rfl⟩ : op = .asr ∧ signed = true := by
      cases op <;> cases hshift <;> first
        | exact ⟨rfl, rfl⟩
        | exact absurd rfl hx.op
    exact (iha hx.operands.1).cast.binary rfl hx.op (ihb hx.operands.2)
  | byte hbits hb ih =>
    obtain ⟨n, hn, hbits⟩ := Option.bind_eq_some_iff.mp hbits
    obtain ⟨rfl, hnormal⟩ := LiftM.int?_eq_some hx.operands.1 hn
    exact .byte hnormal hbits (ih hx.operands.2)
  | binary ho hshift ha hb iha ihb =>
    exact (iha hx.operands.1).binary ho hx.op (ihb hx.operands.2)
  | unresolved reason => exact .unresolved _ reason

/-! ### Lifting -/

namespace LiftM

/-- An expression over registers is lifted to a tree with its value. -/
theorem liftSettled_represents {x : Sym.Expr} (h : x.OverRegisters) :
    Yields (liftSettled x) (Represents x) := by
  intro site s hs
  obtain ⟨htree, hs'⟩ := liftSettled_treeOf h.ofRegisters site s hs
  exact ⟨htree.represents h, hs'⟩

/-- **Lifting keeps the value of an expression over registers.** Where no variable has been made
yet, and whatever the instruction and the configuration at hand, a tree without placeholders has,
for every assignment of 32-bit words to the registers, the value that the expression has with those
words in their places. -/
theorem liftExpr_value (x : Sym.Expr) (hx : x.OverRegisters) (site : Site) (s : Session)
    (hs : s.locals.IsEmpty) (hresolved : (liftExpr x site s).1.reasons = []) (σ : String → Int32)
    (c : Sym.Constant) (hc : (x.instantiate (Sym.registerConstant σ)).evaluate = some c) :
    ((liftExpr x site s).1.intValue? σ).map Int32.toInt64 = some c.value := by
  have hsimplified : x.simplify.OverRegisters := hx.simplify Sym.foldable_isInt32 nofun nofun
  have hlift : liftExpr x = liftSettled x.simplify := by rw [liftExpr, Sym.settle_of_registers hx]
  rw [hlift] at hresolved ⊢
  obtain ⟨hrep, -⟩ := liftSettled_represents hsimplified site s hs.allBare
  obtain ⟨p, hp, rfl⟩ := Option.map_eq_some_iff.mp hc
  have hnarrow : ∀ v : Sym.Variable, v.IsRegister → (Sym.registerConstant σ v).IsNarrow :=
    fun _ _ => rfl
  have hexact := Sym.simplify_evaluateExact hnarrow (hx.mono (fun _ h => h.2) fun _ _ => trivial)
  obtain ⟨n, rfl, hn⟩ := hrep.value hresolved σ p (hexact.trans hp)
  have hvalue : Width.w32.normalize (Int64.ofInt n.toInt) = n.toInt64 := by
    rw [← Int32.toInt_toInt64, Int64.ofInt_toInt, Width.normalize, Int32.toInt32_toInt64]
  rw [hn, Option.map_some]
  exact congrArg some hvalue.symm

/-- The second byte of a register moved by the largest 32-bit number and then by one: the two are
merged into a subtraction of the smallest one, and the byte is shifted and masked out. -/
theorem liftExpr_value_of_byte :
    let r : Sym.Expr := .var ⟨"R0", 1, .register "R0"⟩
    let x : Sym.Expr := .apply .xbyte [.const (.int 1 .w32),
      .apply .plus [.apply .plus [r, .const (.int 2147483647 .w32)], .const (.int 1 .w32)]]
    let e := (liftExpr x ⟨{}, 0, []⟩ (.start {} "f")).1
    let σ : String → Int32 := fun _ => 0x1234
    x.OverRegisters ∧ e.reasons = [] ∧
      (x.instantiate (Sym.registerConstant σ)).evaluate = some (.int 0x12 .w32) ∧
      (e.intValue? σ).map Int32.toInt64 = some 0x12 := by
  intro r x e σ
  have hr : r.OverRegisters := .var ⟨by decide, rfl⟩
  have hc {v : Int64} (hv : (Sym.Constant.int v .w32).IsNormal) :
      (Sym.Expr.const (.int v .w32)).OverRegisters := .const ⟨hv, rfl⟩
  have hsum : (Sym.Expr.apply .plus [r, .const (.int 2147483647 .w32)]).OverRegisters :=
    hr.binary (hc (by decide)) nofun
  have hx : x.OverRegisters :=
    (hc (by decide)).binary (hsum.binary (hc (by decide)) nofun) nofun
  have he : e.reasons = [] := by decide
  have hvalue : (x.instantiate (Sym.registerConstant σ)).evaluate = some (.int 0x12 .w32) := by
    decide
  exact ⟨hx, he, hvalue, liftExpr_value x hx _ _ ⟨rfl, rfl, rfl⟩ he σ _ hvalue⟩

end LiftM

end FactLift
