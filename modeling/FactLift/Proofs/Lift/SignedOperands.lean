import FactLift.Proofs.Lift.RegisterForm
import Mathlib.Data.List.Forall2

/-! What the signed operators are applied to.

Evaluation computes quotients, remainders and orderings on signed words; C computes them without a
sign where an operand's type has none. The operands of these operators in the tree of an expression
over registers are the trees of the operands in the expression (`TreeOf.signedOperands`), so whether
one is unsigned shows in the expression (`liftExpr_signedOperands`). It is where a shift that brings
in zeros passes its type on; without such a shift there is none (`liftExpr_signed_of_overRegisters`).
-/

namespace FactLift

open C

/-- The operators whose value depends on the sign of their operands' type. -/
def C.BinOp.readsSign : BinOp → Bool
  | .div | .mod | .lt | .le | .gt | .ge => true
  | _ => false

namespace C

mutual

/-- The operands of the operators in an expression that read their sign, at any depth. -/
def Expr.signedOperands : Expr → List Expr
  | .binary op a b =>
    (if op.readsSign then [a, b] else []) ++ (a.signedOperands ++ b.signedOperands)
  | .globalAddress _ e | .cast _ e | .unary _ e => e.signedOperands
  | .lval l | .addressOf l => l.signedOperands
  | .conditional c a b => c.signedOperands ++ (a.signedOperands ++ b.signedOperands)
  | .int _ _ | .float _ _ | .string _ _ | .sizeOf _ | .unresolved _ => []

def Lval.signedOperands : Lval → List Expr
  | .var _ offset => offset.signedOperands
  | .mem e offset => e.signedOperands ++ offset.signedOperands

def Offset.signedOperands : Offset → List Expr
  | .field _ _ sub => sub.signedOperands
  | .index i sub => i.signedOperands ++ sub.signedOperands
  | .none | .unresolved _ => []

end

end C

namespace Sym

/-- The operators whose counterpart in C is one of them. -/
def Op.readsSign (op : Op) : Bool :=
  op.binOp?.any BinOp.readsSign

mutual

/-- The operands of the operators in an expression that read their sign, at any depth where it has a
tree. -/
def Expr.signedOperands : Expr → List Expr
  | .const _ | .var _ => []
  | .apply op args =>
    if op.hasTree args then (if op.readsSign then args else []) ++ signedOperandsOf args else []

def signedOperandsOf : List Expr → List Expr
  | [] => []
  | a :: rest => a.signedOperands ++ signedOperandsOf rest

end

variable {op : Op} {a b : Expr}

theorem signedOperands_one (h : op.isUnary = true) :
    (Expr.apply op [a]).signedOperands = a.signedOperands := by
  have hreads : op.readsSign = false := by
    cases op <;> first
      | contradiction
      | rfl
  rw [Expr.signedOperands, if_pos (by exact h), hreads]
  simp [signedOperandsOf]

theorem signedOperands_two (h : op.hasTree [a, b] = true) :
    (Expr.apply op [a, b]).signedOperands =
      (if op.readsSign then [a, b] else []) ++ (a.signedOperands ++ b.signedOperands) := by
  rw [Expr.signedOperands, if_pos h]
  simp [signedOperandsOf]

theorem signedOperandsOf_eq_flatMap (xs : List Expr) :
    signedOperandsOf xs = xs.flatMap Expr.signedOperands := by
  induction xs with
  | nil => rw [signedOperandsOf, List.flatMap_nil]
  | cons a rest ih => rw [signedOperandsOf, ih, List.flatMap_cons]

/-- The operands inside an expression are made of what it is made of. -/
theorem Expr.MadeOf.of_mem_signedOperands {P : Constant → Prop} {Q : Variable → Prop}
    {R : Op → Prop} {x : Expr} (h : x.MadeOf P Q R) : ∀ a ∈ x.signedOperands, a.MadeOf P Q R := by
  induction h with
  | const | var => simp [Expr.signedOperands]
  | @apply op args hop hargs ih =>
    rw [Expr.signedOperands, signedOperandsOf_eq_flatMap]
    split
    · refine List.forall_mem_append.mpr ⟨?_, ?_⟩
      · split
        · exact hargs
        · simp
      · intro a ha
        obtain ⟨b, hb, ha⟩ := List.mem_flatMap.mp ha
        exact ih b hb a ha
    · simp

end Sym

open List (Forall₂)

/-- The operands that a tree reads the sign of are the trees of those that the expression does. -/
theorem TreeOf.signedOperands {x : Sym.Expr} {e : Expr} (h : TreeOf x e) :
    Forall₂ TreeOf x.signedOperands e.signedOperands := by
  induction h with
  | int v => rw [Sym.Expr.signedOperands, Expr.signedOperands]; exact .nil
  | register =>
    rw [Sym.Expr.signedOperands, Expr.ofSymbol, Expr.signedOperands, Lval.signedOperands,
      Offset.signedOperands]
    exact .nil
  | @masked op a e mask hmask ha ih =>
    rw [Sym.signedOperands_one (by cases op <;> cases hmask <;> rfl)]
    simpa [Expr.signedOperands, BinOp.readsSign] using ih
  | @unary op o a e ho ha ih =>
    rw [Sym.signedOperands_one (by cases op <;> cases ho <;> rfl), Expr.signedOperands]
    exact ih
  | @shifted op signed a b e f hshift ha hb iha ihb =>
    cases op <;> cases hshift <;> rw [Sym.signedOperands_two rfl] <;>
      simpa [Expr.signedOperands, BinOp.readsSign, Sym.Op.readsSign, Sym.Op.binOp?] using
        List.rel_append iha ihb
  | @byte a b f bits hbits hb ih =>
    have ha : a.signedOperands = [] := by
      obtain ⟨n, hn, -⟩ := Option.bind_eq_some_iff.mp hbits
      obtain ⟨c, rfl⟩ := Sym.eq_const_of_int? hn
      rw [Sym.Expr.signedOperands]
    rw [Sym.signedOperands_two (by simp [Sym.Op.hasTree, Sym.Op.isUnary, hbits]), ha]
    simpa [byteAt, Expr.signedOperands, BinOp.readsSign, Sym.Op.readsSign, Sym.Op.binOp?] using ih
  | @binary op o a b e f ho hshift ha hb iha ihb =>
    rw [Sym.signedOperands_two (by cases op <;> cases ho <;> rfl), Expr.signedOperands,
      Sym.Op.readsSign, ho, Option.any_some]
    refine List.rel_append ?_ (List.rel_append iha ihb)
    cases o.readsSign
    · exact .nil
    · exact .cons ha (.cons hb .nil)
  | unresolved reason h =>
    rw [Sym.Expr.signedOperands, Expr.signedOperands, h]
    exact .nil

/-- A tree has a type without a sign exactly if the expression says so. -/
theorem TreeOf.signed?_typeOf {x : Sym.Expr} {e : Expr} (h : TreeOf x e) (g : Globals) :
    (e.typeOf g).bind Ty.signed? = x.sign? := by
  rw [h.typeOf g]
  cases x.sign? with
  | none => rfl
  | some signed => cases signed <;> rfl

theorem Sym.Op.sign?_ne_false {op : Sym.Op} {signs : List (Option Bool)} (hop : op ≠ .lsr)
    (h : ∀ sign ∈ signs, sign ≠ some false) : op.sign? signs ≠ some false := by
  have hgetD {a : Option Bool} (ha : a ≠ some false) : a.getD true = true := by
    rcases a with _ | _ | _ <;> first
      | rfl
      | contradiction
  match signs with
  | [a] =>
    have ha : a ≠ some false := h a (by simp)
    cases op <;> simp [Sym.Op.sign?, ha, hgetD ha]
  | [a, b] =>
    have ha : a ≠ some false := h a (by simp)
    have hb : b ≠ some false := h b (by simp)
    cases op <;> first
      | contradiction
      | simp [Sym.Op.sign?, Option.or_eq_some_iff, ha, hb, hgetD hb]
  | [] | _ :: _ :: _ :: _ => simp [Sym.Op.sign?]

/-- Only a shift that brings in zeros makes a type without a sign. -/
theorem sign?_of_overRegisters {x : Sym.Expr} (h : x.OverRegisters) : x.sign? ≠ some false := by
  induction h with
  | const => simp [Sym.Expr.sign?]
  | var => simp [Sym.Expr.sign?]
  | @apply op args hop _ ih =>
    rw [Sym.Expr.sign?, Sym.signs_eq_map]
    split
    · exact Sym.Op.sign?_ne_false hop (List.forall_mem_map.mpr ih)
    · simp

/-- The operands that a tree reads the sign of are signed exactly if those of the expression are. -/
theorem TreeOf.signed_iff {x : Sym.Expr} {e : Expr} (h : TreeOf x e) (g : Globals) :
    (∀ f ∈ e.signedOperands, (f.typeOf g).bind Ty.signed? ≠ some false) ↔
      ∀ a ∈ x.signedOperands, a.sign? ≠ some false := by
  have hoperands := h.signedOperands
  generalize x.signedOperands = as at hoperands ⊢
  generalize e.signedOperands = es at hoperands ⊢
  induction hoperands with
  | nil => simp
  | cons htree _ ih =>
    rw [List.forall_mem_cons, List.forall_mem_cons, htree.signed?_typeOf g]
    exact and_congr_right' ih

namespace LiftM

/-- Without a shift that brings in zeros, the signed operators see signed operands only. -/
theorem liftExpr_signed_of_overRegisters {x : Sym.Expr} (hx : x.OverRegisters) (site : Site)
    {s : Session} (hs : s.locals.IsEmpty) (g : Globals) :
    ∀ e ∈ (liftExpr x site s).1.signedOperands, (e.typeOf g).bind Ty.signed? ≠ some false := by
  have hregisters : x.OfRegisters := hx.mono (fun _ hc => hc) fun _ _ => trivial
  have hsimplified : x.simplify.OverRegisters := hx.simplify Sym.foldable_isInt32 nofun nofun
  rw [(liftExpr_treeOf hregisters site hs).signed_iff g]
  exact fun a ha => sign?_of_overRegisters (hsimplified.of_mem_signedOperands a ha)

/-- **The signed operators have an unsigned operand in the tree of an expression over registers
exactly if they have one in its simplified form.** Unsigned are the results of shifts that bring in
zeros, and what takes its type from them. -/
theorem liftExpr_signedOperands (x : Sym.Expr) (hx : x.OfRegisters) (site : Site) (s : Session)
    (hs : s.locals.IsEmpty) (g : Globals) :
    (∀ e ∈ (liftExpr x site s).1.signedOperands, (e.typeOf g).bind Ty.signed? ≠ some false) ↔
      ∀ a ∈ x.simplify.signedOperands, a.sign? ≠ some false :=
  (liftExpr_treeOf hx site hs).signed_iff g

/-- A quotient of shifted registers is signed where the shift keeps the sign, or is only compared
for equality. -/
theorem liftExpr_signedOperands_of_quotient :
    let r : Sym.Expr := .var ⟨"R0", 1, .register "R0"⟩
    let zeros : Sym.Expr := .apply .lsr [r, .const (.int 1 .w32)]
    let x : Sym.Expr :=
      .apply .div [.apply .asr [r, .const (.int 2 .w32)], .apply .eq [zeros, r]]
    x.OfRegisters ∧
      ∀ e ∈ (liftExpr x ⟨{}, 0, []⟩ (.start {} "f")).1.signedOperands,
        (e.typeOf {}).bind Ty.signed? ≠ some false := by
  intro r zeros x
  have hr : r.OfRegisters := .var ⟨by decide, rfl⟩
  have hc {v : Int64} (hv : (Sym.Constant.int v .w32).IsNormal) :
      (Sym.Expr.const (.int v .w32)).OfRegisters := .const ⟨hv, rfl⟩
  have hx : x.OfRegisters := (hr.two (hc (by decide))).two ((hr.two (hc (by decide))).two hr)
  exact ⟨hx, (liftExpr_signedOperands x hx _ _ ⟨rfl, rfl, rfl⟩ {}).mpr (by decide)⟩

/-- A comparison takes an operand that a shift made unsigned: of the tree
`(unsigned int)R0 >> 1 < R1` the left operand is. -/
theorem liftExpr_compares_unsigned :
    let r (name : String) : Sym.Expr := .var ⟨name, 1, .register name⟩
    let x : Sym.Expr := .apply .lt [.apply .lsr [r "R0", .const (.int 1 .w32)], r "R1"]
    x.OfRegisters ∧
      ∃ e ∈ (liftExpr x ⟨{}, 0, []⟩ (.start {} "f")).1.signedOperands,
        (e.typeOf {}).bind Ty.signed? = some false := by
  intro r x
  have hr (name : String) : (r name).OfRegisters := .var ⟨rfl, rfl⟩
  have hc : (Sym.Expr.const (.int 1 .w32)).OfRegisters := .const ⟨by decide, rfl⟩
  have hx : x.OfRegisters := ((hr "R0").two hc).two (hr "R1")
  exact ⟨hx, by decide⟩

end LiftM

end FactLift
