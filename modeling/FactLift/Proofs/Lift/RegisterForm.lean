import FactLift.Proofs.Lift.ApplyForm
import FactLift.Proofs.Lift.Attempts
import FactLift.Proofs.Lift.Operator
import FactLift.Proofs.Sym.Simplify
import FactLift.Proofs.Symbols.Locals

/-! The trees of expressions over registers.

Registers are the variables of the lifted program here: there are no parameters yet and no
definitions to look through. Registers have no types yet either, and the tree of an expression
follows it operator by operator. `TreeOf x e` lists how: an operator is its counterpart in C, a part
of a value is masked out of it, and a shift to the right goes by a cast that says whether it keeps
the sign. The cast is the one place where a type enters besides the constants, so the sign of a
tree's type can be read off the expression (`TreeOf.typeOf`). Lifting gives no other trees
(`liftSettled_treeOf`, `liftExpr_treeOf`), so what is said of `TreeOf` is said of the lift. -/

namespace FactLift

open C

/-! ### Expressions over registers -/

namespace Sym

/-- A variable that denotes a register and is no temporary. -/
def Variable.IsRegister (v : Variable) : Prop :=
  v.isTemporary = false ∧ v.register?.isSome

/-- A 32-bit integer constant, cut to its width. -/
def Constant.IsInt32 (c : Constant) : Prop :=
  c.IsNormal ∧ c.IsNarrow

/-- An expression over registers and 32-bit integers, with any operators. -/
def Expr.OfRegisters (x : Expr) : Prop :=
  x.MadeOf Constant.IsInt32 Variable.IsRegister fun _ => True

/-- An expression over registers and 32-bit integers. The shift to the right that brings in zeros is
left out: `int` has none. -/
def Expr.OverRegisters (x : Expr) : Prop :=
  x.MadeOf Constant.IsInt32 Variable.IsRegister (· ≠ .lsr)

theorem Expr.OverRegisters.ofRegisters {x : Expr} (h : x.OverRegisters) : x.OfRegisters :=
  h.mono (fun _ hc => hc) fun _ _ => trivial

theorem Expr.OfRegisters.one {op : Op} {a : Expr} (ha : a.OfRegisters) :
    (Expr.apply op [a]).OfRegisters :=
  .apply trivial (List.forall_mem_singleton.mpr ha)

theorem Expr.OfRegisters.two {op : Op} {a b : Expr} (ha : a.OfRegisters) (hb : b.OfRegisters) :
    (Expr.apply op [a, b]).OfRegisters :=
  ha.binary hb trivial

theorem foldable_isInt32 : Foldable Constant.IsInt32 where
  fits cs h c hc := foldable_isNormal.fits cs (fun c hc => (h c hc).1) c hc
  closed cs h c hc := ⟨foldable_isNormal.closed cs (fun c hc => (h c hc).1) c hc,
    foldable_isNarrow.closed cs (fun c hc => (h c hc).2) c hc⟩

theorem Variable.IsRegister.eq {v : Variable} (h : v.IsRegister) :
    ∃ name number r, number ≠ -1 ∧ v = ⟨name, number, .register r⟩ := by
  obtain ⟨name, number, meaning⟩ := v
  obtain ⟨htemporary, hmeaning⟩ := h
  have hnumber : number ≠ -1 := by simpa [Variable.isTemporary] using htemporary
  cases meaning with
  | register r => exact ⟨name, number, r, hnumber, rfl⟩
  | _ => simp [Variable.register?] at hmeaning

/-- There is nothing to simplify inside a register. -/
theorem settle_of_registers {P : Constant → Prop} {R : Op → Prop} {x : Expr}
    (h : x.MadeOf P Variable.IsRegister R) : x.settle = x := by
  induction h with
  | const _ => rw [Expr.settle]
  | var hv =>
    obtain ⟨name, number, r, -, rfl⟩ := hv.eq
    rw [Expr.settle, Variable.settle, Meaning.settle]
  | apply _ _ ih =>
    rw [Expr.settle, settleAll_eq_map, List.map_congr_left ih, List.map_id']

/-! ### Signs -/

/-- The sign of the type of an operator's tree, from the signs of its operands' types, as far as
they are known. -/
def Op.sign? (op : Op) : List (Option Bool) → Option Bool
  | [a] =>
    match op with
    | lnot => some true
    | lsb | lsh => a.or (some true)
    | _ => a
  | [a, b] =>
    match op with
    | eq | ne | lt | le | gt | ge | land | lor | asr => some true
    | lsr => some false
    | minus => a
    | xbyte => b.or (some true)
    | _ => a.or b
  | _ => none

mutual

/-- Whether the type of the tree of an expression over registers has a sign, as far as the type is
known. Registers have no type, and placeholders have none. -/
def Expr.sign? : Expr → Option Bool
  | .const _ => some true
  | .var _ => none
  | .apply op args => if op.hasTree args then op.sign? (signs args) else none

/-- The signs of a list of expressions. -/
def signs : List Expr → List (Option Bool)
  | [] => []
  | a :: rest => a.sign? :: signs rest

end

theorem signs_eq_map (xs : List Expr) : signs xs = xs.map Expr.sign? := by
  induction xs with
  | nil => rw [signs, List.map_nil]
  | cons a rest ih => rw [signs, ih, List.map_cons]

theorem sign?_apply {op : Op} {args : List Expr} (h : op.hasTree args = true) :
    (Expr.apply op args).sign? = op.sign? (args.map Expr.sign?) := by
  rw [Expr.sign?, if_pos h, signs_eq_map]

theorem eq_const_of_int? {x : Expr} {n : Int64} (h : x.int? = some n) : ∃ c, x = .const c := by
  cases x with
  | const c => exact ⟨c, rfl⟩
  | _ => contradiction

end Sym

@[simp] theorem Globals.resolve_int (g : Globals) (k : IntKind) : g.resolve (.int k) = .int k := by
  rw [resolve]
  cases maxTypedefs <;> rfl

/-- The type `int`, with or without a sign. -/
def C.Ty.ofSign (signed : Bool) : Ty :=
  .int (IntKind.int.withSign signed)

@[simp] theorem ofSign_true : Ty.ofSign true = .int .int := rfl

@[simp] theorem ofSign_false : Ty.ofSign false = .int .uint := rfl

@[simp] theorem getD_ofSign (a : Option Bool) :
    (a.map Ty.ofSign).getD (.int .int) = .ofSign (a.getD true) := by
  cases a <;> rfl

theorem differenceType_ofSign (a b : Option Bool) :
    differenceType (a.map .ofSign) (b.map .ofSign) = a.map .ofSign := by
  cases a <;> rfl

/-! ### Trees -/

/-- The trees that an expression over registers may be lifted to. -/
inductive TreeOf : Sym.Expr → Expr → Prop
  | int (v : Int64) : TreeOf (.const (.int v .w32)) (.int v .int)
  | register {name : String} {number : Int64} {r : String} {s : Symbol} (hname : s.name = r)
      (htype : s.type = none) : TreeOf (.var ⟨name, number, .register r⟩) (.ofSymbol s)
  | masked {op : Sym.Op} {a : Sym.Expr} {e : Expr} {mask : Int64} (hmask : op.mask? = some mask)
      (ha : TreeOf a e) : TreeOf (.apply op [a]) (.binary .band e (.int mask .int))
  | unary {op : Sym.Op} {o : UnOp} {a : Sym.Expr} {e : Expr} (ho : op.unOp? = some o)
      (ha : TreeOf a e) : TreeOf (.apply op [a]) (.unary o e)
  | shifted {op : Sym.Op} {signed : Bool} {a b : Sym.Expr} {e f : Expr}
      (hshift : op.rightShift? = some signed) (ha : TreeOf a e) (hb : TreeOf b f) :
      TreeOf (.apply op [a, b])
        (.binary .shiftRt (.cast (.ofSign signed) e) f)
  | byte {a b : Sym.Expr} {f : Expr} {bits : Int64} (hbits : a.int?.bind timesEight? = some bits)
      (hb : TreeOf b f) : TreeOf (.apply .xbyte [a, b]) (byteAt f bits)
  | binary {op : Sym.Op} {o : BinOp} {a b : Sym.Expr} {e f : Expr} (ho : op.binOp? = some o)
      (hshift : op.rightShift? = none) (ha : TreeOf a e) (hb : TreeOf b f) :
      TreeOf (.apply op [a, b]) (.binary o e f)
  | unresolved {op : Sym.Op} {args : List Sym.Expr} (reason : String)
      (h : op.hasTree args = false) : TreeOf (.apply op args) (.unresolved reason)

namespace TreeOf

variable {x a : Sym.Expr} {e : Expr} {op : Sym.Op}

/-- The type of a tree is `int`, with or without a sign, as far as it is known. -/
theorem typeOf (h : TreeOf x e) (g : Globals) : e.typeOf g = x.sign?.map .ofSign := by
  induction h with
  | int v => rw [Expr.typeOf, Sym.Expr.sign?]; rfl
  | register hname htype =>
    rw [Expr.ofSymbol, Expr.typeOf, Lval.typeOf, htype, Sym.Expr.sign?]
    rfl
  | @masked op a e mask hmask ha ih =>
    cases op <;> cases hmask <;> rw [Sym.sign?_apply rfl, Expr.typeOf, ih, Expr.typeOf] <;>
      simp [Sym.Op.sign?, BinOp.isTruth]
  | @unary op o a e ho ha ih =>
    cases op <;> cases ho <;> rw [Sym.sign?_apply rfl] <;> simp [Expr.typeOf, Sym.Op.sign?, ih]
  | @shifted op signed a b e f hshift ha hb iha ihb =>
    cases op <;> cases hshift <;> rw [Sym.sign?_apply rfl] <;>
      simp [Expr.typeOf, Sym.Op.sign?, BinOp.isTruth]
  | @byte a b f bits hbits hb ih =>
    rw [Sym.sign?_apply (by simp [Sym.Op.hasTree, Sym.Op.isUnary, hbits])]
    simp [byteAt, Expr.typeOf, Sym.Op.sign?, BinOp.isTruth, ih]
  | @binary op o a b e f ho hshift ha hb iha ihb =>
    cases op <;> cases ho <;> cases hshift <;> rw [Sym.sign?_apply rfl, Expr.typeOf, iha, ihb] <;>
      simp [Sym.Op.sign?, BinOp.isTruth, Option.map_or, differenceType_ofSign]
  | unresolved reason h => rw [Expr.typeOf, Sym.Expr.sign?, h]; rfl

/-- No tree is a pointer, so none is moved by the size of a target. -/
theorem moveBy (h : TreeOf x e) (cfg : Config) (g : Globals) (o : BinOp) (c : Int64) :
    moveBy cfg g o e c = .binary o e (.int c .int) := by
  rw [FactLift.moveBy, movement, h.typeOf g]
  cases x.sign? with
  | none => rfl
  | some signed =>
    rw [Option.map_some, Option.map_some, Ty.ofSign, Globals.resolve_int]
    rfl

theorem shiftRight (h : TreeOf x e) (g : Globals) (signed : Bool) (s : Expr) :
    shiftRight g signed e s = .binary .shiftRt (.cast (.ofSign signed) e) s := by
  rw [FactLift.shiftRight, h.typeOf g]
  cases x.sign? with
  | none => rfl
  | some sign => cases sign <;> cases signed <;> rfl

end TreeOf

/-! ### Lifting -/

namespace LiftM

variable {α β : Type}

/-- From a session whose variables are bare names, the action gives a result that satisfies `Q` and
keeps the variables bare. -/
def Yields (x : LiftM α) (Q : α → Prop) : Prop :=
  ∀ site s, s.locals.AllBare → Q (x site s).1 ∧ (x site s).2.locals.AllBare

namespace Yields

theorem pure {a : α} {Q : α → Prop} (h : Q a) : Yields (pure a : LiftM α) Q :=
  fun _ _ hs => ⟨h, hs⟩

theorem bind {x : LiftM α} {f : α → LiftM β} {P : α → Prop} {Q : β → Prop} (hx : Yields x P)
    (hf : ∀ a, P a → Yields (f a) Q) : Yields (x >>= f) Q := by
  intro site s hs
  obtain ⟨ha, hs'⟩ := hx site s hs
  exact hf _ ha site _ hs'

end Yields

theorem read_yields : Yields (read : LiftM Site) fun _ => True := fun _ _ hs => ⟨trivial, hs⟩

theorem globals_yields : Yields globals fun _ => True := fun _ _ hs => ⟨trivial, hs⟩

theorem locals_yields : Yields locals Locals.AllBare := fun _ _ hs => ⟨hs, hs⟩

theorem registerVariable_yields (r : String) :
    Yields (registerVariable r) fun s => s.name = r ∧ s.type = none := by
  intro site s hs
  obtain ⟨hall, hnew⟩ := Locals.register_bare hs r
  exact ⟨hnew.get, hall⟩

/-- No pointer is moved, so the constant is added as it is. -/
theorem moved_yields {x : Sym.Expr} {e : Expr} (h : TreeOf x e) (o : BinOp) (c : Int64) :
    Yields (moved o e c) (· = .binary o e (.int c .int)) := by
  intro site s hs
  rw [moved_eq]
  exact ⟨h.moveBy _ _ o c, hs⟩

/-- Without definitions of registers, a use reads the register itself. -/
theorem registerUse_yields (r : String) :
    Yields (registerUse r) fun s => s.name = r ∧ s.type = none := by
  refine read_yields.bind fun site _ => locals_yields.bind fun l hl => ?_
  have hssa (a : UInt64) : l.ssa? r a = none := by
    rw [Locals.ssa?, Locals.ssaId?, hl.ssa]
    rfl
  dsimp only
  split
  · rename_i v hv
    obtain ⟨-, -, hv⟩ := Option.bind_eq_some_iff.mp hv
    obtain ⟨f, -, hv⟩ := Option.bind_eq_some_iff.mp hv
    split at hv
    · rw [hssa] at hv
      contradiction
    · contradiction
  · exact registerVariable_yields r

/-- A register is not the stack pointer at entry, so no expression over registers is an address of
the frame. -/
theorem stackOffset?_eq_none {P : Sym.Constant → Prop} {R : Sym.Op → Prop} {x : Sym.Expr}
    (h : x.MadeOf P Sym.Variable.IsRegister R) : x.stackOffset? = none := by
  have hbase {v : Sym.Variable} (hv : v.IsRegister) : v.isStackBase = false := by
    obtain ⟨name, number, r, -, rfl⟩ := hv.eq
    rfl
  unfold Sym.Expr.stackOffset?
  split
  · cases h with
    | var hv => rw [hbase hv]; rfl
  · cases h.operands.1 with
    | var hv => rw [hbase hv]; rfl
  · cases h.operands.1 with
    | var hv => rw [hbase hv]; rfl
  · rfl

/-- A constant operand is a 32-bit integer. -/
theorem int?_eq_some {Q : Sym.Variable → Prop} {R : Sym.Op → Prop} {x : Sym.Expr}
    (h : x.MadeOf Sym.Constant.IsInt32 Q R) {c : Int64} (hc : x.int? = some c) :
    x = .const (.int c .w32) ∧ (Sym.Constant.int c .w32).IsNormal := by
  cases h with
  | @const k hk =>
    obtain ⟨hnormal, hnarrow⟩ := hk
    obtain rfl : k.value = c := Option.some.inj hc
    cases k with
    | int v w =>
      obtain rfl : w = .w32 := hnarrow
      exact ⟨rfl, hnormal⟩
    | address a => exact hnormal.elim
  | _ => contradiction

/-- An operator is lifted to a tree of its operands' trees. -/
theorem liftSettled_apply_treeOf {op : Sym.Op} {args : List Sym.Expr}
    (hx : ∀ a ∈ args, a.OfRegisters)
    (hargs : ∀ a ∈ args, Yields (liftSettled a) (TreeOf a)) :
    Yields (liftSettled (.apply op args)) (TreeOf (.apply op args)) := by
  have h := liftSettled_apply op args
  generalize liftSettled (.apply op args) = x at h ⊢
  cases h with
  | slot hslot =>
    have hall : (Sym.Expr.apply op args).OfRegisters := .apply trivial hx
    rw [stackOffset?_eq_none hall] at hslot
    cases hslot
  | masked hmask => exact (hargs _ (by simp)).bind fun e he => .pure (.masked hmask he)
  | @unary op a hop hmask =>
    refine (hargs a (by simp)).bind fun e he => ?_
    cases op <;> first
      | contradiction
      | exact .pure (.unary rfl he)
  | @moved op a b o c ho hc =>
    obtain ⟨rfl, -⟩ := int?_eq_some (hx b (by simp)) hc
    refine (hargs a (by simp)).bind fun e he => ?_
    have hmoved := moved_yields he o c
    refine fun site s hs => ⟨?_, (hmoved site s hs).2⟩
    rw [(hmoved site s hs).1]
    cases op <;> cases ho <;> exact .binary rfl rfl he (.int c)
  | @shifted op a b signed hshift =>
    refine (hargs a (by simp)).bind fun e he => (hargs b (by simp)).bind fun f hf =>
      globals_yields.bind fun g _ => .pure ?_
    rw [he.shiftRight]
    exact .shifted hshift he hf
  | @byte a b n bits hn hbits =>
    exact (hargs b (by simp)).bind fun f hf => .pure (.byte (by rw [hn]; exact hbits) hf)
  | @binary op a b hop hmove =>
    refine (hargs a (by simp)).bind fun e he => (hargs b (by simp)).bind fun f hf => ?_
    cases op <;> first
      | contradiction
      | exact .pure (.binary rfl rfl he hf)
  | unresolved reason h => exact fun _ _ hs => ⟨.unresolved reason h, hs⟩

theorem liftSettled_treeOf {x : Sym.Expr} (h : x.OfRegisters) :
    Yields (liftSettled x) (TreeOf x) := by
  induction h with
  | @const c hc =>
    rw [liftSettled]
    obtain ⟨hnormal, hnarrow⟩ := hc
    cases c with
    | int v w =>
      obtain rfl : w = .w32 := hnarrow
      exact .pure (.int v)
    | address a => exact hnormal.elim
  | var hv =>
    obtain ⟨name, number, r, hnumber, rfl⟩ := hv.eq
    rw [liftSettled, liftVariable, if_neg (by simpa using hnumber)]
    exact (registerUse_yields r).bind fun s hs => .pure (.register hs.1 hs.2)
  | apply _ hargs ih => exact liftSettled_apply_treeOf hargs ih

/-- Where no variable has been made yet, an expression over registers is lifted to a tree of its
simplified form. -/
theorem liftExpr_treeOf {x : Sym.Expr} (hx : x.OfRegisters) (site : Site) {s : Session}
    (hs : s.locals.IsEmpty) : TreeOf x.simplify (liftExpr x site s).1 := by
  rw [liftExpr, Sym.settle_of_registers hx]
  have hsimplified : x.simplify.OfRegisters := hx.simplify Sym.foldable_isInt32 trivial trivial
  exact (liftSettled_treeOf hsimplified site s hs.allBare).1

end LiftM

end FactLift
