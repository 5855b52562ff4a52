import FactLift.Proofs.Lift.Attempts
import FactLift.Proofs.Lift.Deref
import FactLift.Proofs.Symbols.ByteExact
import FactLift.Proofs.Word

/-! Pointers that are moved by a constant.

`Expr.address?` reads an expression as C does: adding to a pointer, or taking from it, counts in the
size of what it points to, the address of a field lies as far on as the composite says, and a cast
to a pointer to bytes stays where it is. Whatever way of writing a moved pointer is chosen, the
address is that of the pointer moved by the constant in bytes (`moveBy_address`), and so it is where
the sum or difference of a base and a constant is lifted (`liftSettled_moves_bytes`). -/

namespace FactLift

open C

/-! ### Pointers as C reads them -/

/-- What a pointer points to, with type names looked through. -/
def pointee? (g : Globals) (q : Expr) : Option Ty :=
  (LiftM.targetType? g q).map g.resolve

/-- How many bytes a pointer is moved by for each unit: the size of what it points to, and a byte
where that is unknown or zero. -/
def pointeeUnit (g : Globals) (q : Expr) : Int :=
  (((pointee? g q).bind g.elementSize?).getD 1 : Nat)

/-- Where a field of the composite that a pointer points to starts. -/
def pointeeField? (g : Globals) (q : Expr) (name : String) (key : Nat) : Option Int64 :=
  if (pointee? g q).bind Ty.key? = some key then do
    let c ← g.composite? key
    let f ← c.field? name
    f.offset
  else none

/-- The address that an expression stands for. What is not a pointer moved or cast, or the address
of a field behind a pointer, has an address that is given; a field that is not there has none. -/
def C.Expr.address? (g : Globals) (given : Expr → Int) : Expr → Option Int
  | .binary .plus q (.int k _) => (q.address? g given).map (· + k.toInt * pointeeUnit g q)
  | .binary .minus q (.int k _) => (q.address? g given).map (· - k.toInt * pointeeUnit g q)
  | .cast (.pointer (.int .uchar)) q => q.address? g given
  | .addressOf (.mem q (.field name key .none)) => do
    return (← q.address? g given) + (← pointeeField? g q name key).toInt
  | e => some (given e)

/-- Adding, or taking away. -/
def C.BinOp.moved (op : BinOp) (a d : Int) : Int :=
  if op = .minus then a - d else a + d

section

variable {g : Globals} {p : Expr} {t : Ty}

/-- What a pointer points to, by its type. -/
theorem pointee?_of_pointer (hp : (p.typeOf g).map g.resolve = some (.pointer t)) :
    pointee? g p = some (g.resolve t) := by
  rw [pointee?, LiftM.targetType?, hp]
  rfl

/-- The unit of a pointer, by its type. -/
theorem pointeeUnit_of_pointer (hp : (p.typeOf g).map g.resolve = some (.pointer t)) :
    pointeeUnit g p = ((g.elementSize? (g.resolve t)).getD 1 : Nat) := by
  rw [pointeeUnit, pointee?_of_pointer hp, Option.bind_some]

/-- A byte is a byte. -/
theorem pointeeUnit_byteCast (g : Globals) (p : Expr) :
    pointeeUnit g (.cast (.pointer (.int .uchar)) p) = 1 := by
  have hp : ((Expr.cast (.pointer (.int .uchar)) p).typeOf g).map g.resolve =
      some (.pointer (.int .uchar)) := by
    rw [Expr.typeOf]
    rfl
  have hsize : g.elementSize? (g.resolve (.int .uchar)) = some 1 := by
    rw [Globals.elementSize?, Globals.size?, Globals.sizing, Globals.sizeWithin]
    rfl
  rw [pointeeUnit_of_pointer hp, hsize]
  rfl

theorem address?_binary {op : BinOp} (hop : op = .plus ∨ op = .minus) (g : Globals)
    (given : Expr → Int) (q : Expr) (k : Int64) (kind : IntKind) :
    (Expr.binary op q (.int k kind)).address? g given =
      (q.address? g given).map (op.moved · (k.toInt * pointeeUnit g q)) := by
  rcases hop with rfl | rfl <;> rw [Expr.address?] <;> rfl

/-! ### The ways of writing a moved pointer -/

/-- A constant that can be negated within words, as it can if the result is not negative. -/
theorem toInt_neg_of_nonneg {c : Int64} (h : 0 ≤ -c) : (-c).toInt = -c.toInt := by
  have hnonneg : 0 ≤ (-c).toInt := Int64.le_iff_toInt_le.mp h
  rw [Int64.toInt_neg] at hnonneg ⊢
  have hlow := c.le_toInt
  have hhigh := c.toInt_lt
  by_cases hmin : c.toInt = -2 ^ 63
  · rw [hmin] at hnonneg
    exact absurd hnonneg (by decide)
  · exact Int.bmod_eq_of_le (by omega) (by omega)

/-- A field starts at the bytes that were asked for, if it was found there. -/
theorem fieldStart?_exact (hnames : g.DistinctFields) (hforward : g.ForwardFields)
    {target : Ty} {bytes : Int64} {name : String} {key : Nat}
    (hp : pointee? g p = some target) (h : fieldStart? g target bytes = some (name, key)) :
    0 ≤ bytes ∧ ∃ start, pointeeField? g p name key = some start ∧ start.toInt = bytes.toInt := by
  obtain ⟨key', hkey, h⟩ := Option.bind_eq_some_iff.mp h
  obtain ⟨c, hc, h⟩ := Option.bind_eq_some_iff.mp h
  obtain ⟨⟨f, rest⟩, hf, h⟩ := Option.bind_eq_some_iff.mp h
  dsimp only at h
  split at h
  next hrest =>
    obtain ⟨rfl, rfl⟩ := Prod.mk.inj (Option.some.inj h)
    obtain ⟨hmem, start, hstart, hbytes⟩ := Composite.fieldAt?_exact (hforward key' c hc) hf
    have hfield := Composite.field?_name (hnames key' c hc) hmem
    refine ⟨?_, start, ?_, ?_⟩
    · unfold Composite.fieldAt? at hf
      split at hf
      · cases hf
      next hlt => exact Int64.not_lt.mp fun hneg => hlt (.inl hneg)
    · simp [pointeeField?, hp, hkey, hc, hfield, hstart]
    · simp [hbytes, hrest]
  next => cases h

/-- A quotient without a rest, times the divisor. -/
theorem toInt_div_mul {c : Int64} {size : Nat} (hpos : 0 < size) (hfits : size < 2 ^ 63)
    (h : c % Int64.ofNat size = 0) : (c / Int64.ofNat size).toInt * size = c.toInt := by
  have hsize : (Int64.ofNat size).toInt = size := Int64.toInt_ofNat_of_lt hfits
  have hrest : c.toInt.tmod size = 0 := by
    rw [← hsize, ← Int64.toInt_mod, h]
    rfl
  have hdvd : (size : Int) ∣ c.toInt := Int.dvd_of_tmod_eq_zero hrest
  obtain ⟨hlow, hhigh⟩ := Globals.ediv_range c hpos
  rw [Int64.toInt_div, hsize, Int.tdiv_eq_ediv_of_dvd hdvd,
    Int.bmod_eq_of_le (by omega) (by omega), Int.ediv_mul_cancel hdvd]

/-- The address of the field that starts where the constant leads. -/
theorem address?_fieldStart (hnames : g.DistinctFields) (hforward : g.ForwardFields) {target : Ty}
    (hp : pointee? g p = some target) {op : BinOp} (hop : op = .plus ∨ op = .minus) {c : Int64}
    {name : String} {key : Nat}
    (h : fieldStart? g target (if op = .minus then -c else c) = some (name, key))
    (given : Expr → Int) :
    (Expr.addressOf (.mem p (.field name key .none))).address? g given =
      (p.address? g given).map (op.moved · c.toInt) := by
  obtain ⟨hnonneg, start, hstart, hbytes⟩ := fieldStart?_exact hnames hforward hp h
  have hmoved : ∀ a, a + start.toInt = op.moved a c.toInt := by
    intro a
    rcases hop with rfl | rfl
    · rw [hbytes]
      rfl
    · rw [hbytes, if_pos rfl, toInt_neg_of_nonneg hnonneg]
      rfl
  rw [Expr.address?, hstart]
  cases p.address? g given with
  | none => rfl
  | some a => exact congrArg some (hmoved a)

/-- **Bytes.** A pointer that is moved by a constant is moved by that many bytes, whichever way it
is written: as the address of a field, in units of the target, or on bytes. -/
theorem moveBy_address (cfg : Config) (hnames : g.DistinctFields) (hforward : g.ForwardFields)
    (hp : (p.typeOf g).map g.resolve = some (.pointer t))
    (hfits : ∀ n, g.size? (g.resolve t) = some n → n < 2 ^ 63) {op : BinOp}
    (hop : op = .plus ∨ op = .minus) (c : Int64) (given : Expr → Int) :
    (moveBy cfg g op p c).address? g given = (p.address? g given).map (op.moved · c.toInt) := by
  have hunit : pointeeUnit g p = ((g.elementSize? (g.resolve t)).getD 1 : Nat) :=
    pointeeUnit_of_pointer hp
  have hunits (k : Int64) (h : k.toInt * pointeeUnit g p = c.toInt) :
      (Expr.binary op p (.int k .int)).address? g given =
        (p.address? g given).map (op.moved · c.toInt) := by
    rw [address?_binary hop, h]
  rw [moveBy, movement, hp]
  dsimp only [movePointer]
  split
  next name key hfield =>
    split at hfield
    · exact address?_fieldStart hnames hforward (pointee?_of_pointer hp) hop hfield given
    · cases hfield
  next =>
    rw [Globals.elementSize?, Globals.size?] at hunit
    cases hsizing : g.sizing (g.resolve t) with
    | error fault =>
      rw [hsizing] at hunit
      exact hunits c (by rw [hunit]; exact Int.mul_one _)
    | ok size =>
      rw [hsizing] at hunit
      rw [ok_bind]
      split
      next hsize =>
        rw [Except.toOption, Option.getD, hsize] at hunit
        exact hunits c (by rw [hunit]; exact Int.mul_one _)
      next n hsize =>
        rw [Except.toOption, Option.getD, hsize] at hunit
        obtain ⟨rfl, hpos⟩ := Option.filter_eq_some_iff.mp hsize
        have hword := hfits n (Globals.size?_of_sizing hsizing)
        rw [Word.overflows_ofNat c hword, if_neg (by simp)]
        split
        next hscale =>
          refine hunits _ ?_
          rw [hunit]
          exact toInt_div_mul (of_decide_eq_true hpos) hword hscale.2
        next =>
          split
          next hone => exact hunits c (by rw [hunit, hone]; exact Int.mul_one _)
          next =>
            show (Expr.binary op _ (.int c .int)).address? g given = _
            rw [address?_binary hop, pointeeUnit_byteCast, Int.mul_one, Expr.address?]

end

/-! ### Lifting a base and a constant -/

namespace LiftM

variable {site : Site} {s s' : Session} {a b : Sym.Expr} {c : Int64} {p : Expr} {t : Ty}

/-- A base with a constant added to it or taken from it is moved by the constant, unless it is an
address in the frame. -/
theorem liftSettled_moved {op : Sym.Op} {bop : BinOp}
    (hop : op = .plus ∧ bop = .plus ∨ op = .minus ∧ bop = .minus)
    (hstack : (Sym.Expr.apply op [a, b]).stackOffset? = none) (hb : b.int? = some c)
    (hp : liftSettled a site s = (p, s')) :
    (liftSettled (.apply op [a, b]) site s).1 = moveBy site.config s'.globals bop p c := by
  have hmoved : liftSettled (.apply op [a, b]) = (do
      let p ← liftSettled a
      moved bop p c) := by
    rcases hop with ⟨rfl, rfl⟩ | ⟨rfl, rfl⟩ <;> rw [liftSettled, hstack, hb]
  rw [hmoved]
  show (moved bop (liftSettled a site s).1 c site (liftSettled a site s).2).1 = _
  rw [hp, moved_eq]

/-- **A moved base.** Where the base is a pointer, the sum and the difference of base and constant
stand for its address moved by the constant in bytes, whatever the configuration. -/
theorem liftSettled_moves_bytes (hb : b.int? = some c) (hp : liftSettled a site s = (p, s'))
    (hnames : s'.globals.DistinctFields) (hforward : s'.globals.ForwardFields)
    (ht : (p.typeOf s'.globals).map s'.globals.resolve = some (.pointer t))
    (hfits : ∀ n, s'.globals.size? (s'.globals.resolve t) = some n → n < 2 ^ 63)
    (given : Expr → Int) :
    ((Sym.Expr.apply .plus [a, b]).stackOffset? = none →
        (liftSettled (.apply .plus [a, b]) site s).1.address? s'.globals given =
          (p.address? s'.globals given).map (· + c.toInt)) ∧
      ((Sym.Expr.apply .minus [a, b]).stackOffset? = none →
        (liftSettled (.apply .minus [a, b]) site s).1.address? s'.globals given =
          (p.address? s'.globals given).map (· - c.toInt)) := by
  constructor
  · intro hstack
    rw [liftSettled_moved (.inl ⟨rfl, rfl⟩) hstack hb hp]
    exact moveBy_address site.config hnames hforward ht hfits (.inl rfl) c given
  · intro hstack
    rw [liftSettled_moved (.inr ⟨rfl, rfl⟩) hstack hb hp]
    exact moveBy_address site.config hnames hforward ht hfits (.inr rfl) c given

/-- A pointer to a pair at 0x2000: taking minus four bytes from it is the address of its second
field, and adding them is done on bytes. -/
theorem liftSettled_moves_bytes_of_pair :
    let s := pointerSession pairGlobals (.composite 1 "pair")
    let lifted (op : Sym.Op) : Expr :=
      (liftSettled (.apply op [.var pointerAtEntry, .ofInt64 (-4)]) ⟨{}, 0x1000, []⟩ s).1
    (lifted .plus).address? pairGlobals (fun _ => 0x2000) = some 0x1ffc ∧
      (lifted .minus).address? pairGlobals (fun _ => 0x2000) = some 0x2004 := by
  intro s lifted
  have hp : liftSettled (.var pointerAtEntry) ⟨{}, 0x1000, []⟩ s =
      (pointerParameter (.composite 1 "pair"), s) := by
    rw [liftSettled, pointerAtEntry, liftVariable, if_neg (by decide), liftFixed]
    rfl
  have hforward : pairGlobals.ForwardFields := fun _ _ hc _ hf _ =>
    zero_le_offset_pairGlobals hc hf
  have hfits : ∀ n, pairGlobals.size? (pairGlobals.resolve (.composite 1 "pair")) = some n →
      n < 2 ^ 63 := by
    have hsize : pairGlobals.size? (pairGlobals.resolve (.composite 1 "pair")) = some 8 := by
      decide
    intro n hn
    obtain rfl := Option.some.inj (hsize.symm.trans hn)
    decide
  have hconstant : (Sym.Expr.ofInt64 (-4)).int? = some (-4) := by decide
  have hmoves := liftSettled_moves_bytes hconstant hp distinctFields_pairGlobals hforward rfl hfits
    fun _ => 0x2000
  exact ⟨hmoves.1 (by decide), hmoves.2 (by decide)⟩

end LiftM

end FactLift
