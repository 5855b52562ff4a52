import FactLift.Proofs.Word
import FactLift.Sym.Fold

/-! Folding agrees with evaluation.

`fold` computes in machine words, `evaluate` over the integers with a cut after every operation. A
constant is read as an exact value by `Constant.exact`; `foldUnary_exact` and `foldBinary_exact` say
that each operator on words, read so, is the operator on the integers, undefined cases included.
From there the agreement goes up the expression: `fold_exact` for expressions whose constants fit
their widths. -/

namespace FactLift.Sym

/-! ### Cutting to a width -/

theorem modulus_dvd_word (w : Width) : w.modulus ∣ 2 ^ 64 := by
  cases w <;> decide

/-- What wraps around in a word is cut away by any width. -/
theorem reduce_wrapped (v : Int) (w : Width) : reduce (v.bmod (2 ^ 64)) w = reduce v w :=
  Int.bmod_bmod_of_dvd (modulus_dvd_word w)

theorem reduce_reduce (v : Int) (w : Width) : reduce (reduce v w) w = reduce v w :=
  Int.bmod_bmod

theorem toInt_normalize (w : Width) (v : Int64) : (w.normalize v).toInt = reduce v.toInt w := by
  cases w <;> simp [Width.normalize, reduce, Width.modulus, Width.bits]

/-- The low bits of a word, as a bit vector of the width. -/
theorem ofInt_toInt (v : Int64) {n : Nat} (hn : n ≤ 64) :
    BitVec.ofInt n v.toInt = v.toBitVec.setWidth n := by
  rw [← BitVec.signExtend_eq_setWidth_of_le _ hn]
  apply BitVec.eq_of_toInt_eq
  rw [BitVec.toInt_ofInt, BitVec.toInt_signExtend, Nat.min_eq_left hn, Int64.toInt_toBitVec]

theorem bits_le_word (w : Width) : w.bits ≤ 64 := by
  cases w <;> decide

theorem reduce_eq_toInt (v : Int) (w : Width) : reduce v w = (BitVec.ofInt w.bits v).toInt := by
  rw [BitVec.toInt_ofInt]
  rfl

/-! ### Constants as exact values -/

/-- A constant as an exact value: an integer cut to the width, and the width. -/
def Constant.exact (c : Constant) : Int × Width :=
  (reduce c.value.toInt c.width, c.width)

/-- An exact value, cut to its width. -/
def cut (p : Int × Width) : Int × Width :=
  (reduce p.1 p.2, p.2)

theorem exact_atWidth (v : Int64) (w : Width) :
    (Constant.atWidth v w).exact = (reduce v.toInt w, w) := by
  show (reduce (w.normalize v).toInt w, w) = _
  rw [toInt_normalize, reduce_reduce]

/-- A word that holds an integer up to wrapping around, cut to a width, is that integer cut. -/
theorem exact_of_wrapped {v : Int64} {z : Int} (h : v.toInt = z.bmod (2 ^ 64)) (w : Width) :
    (Constant.atWidth v w).exact = cut (z, w) := by
  rw [exact_atWidth, h, reduce_wrapped]
  rfl

theorem exact_ofBool (b : Bool) : (Constant.ofBool b).exact = cut (if b then 1 else 0, .w32) := by
  cases b <;> rfl

/-! ### Operators on words -/

theorem toInt_byte (a : Int64) : (a &&& 0xff).toInt = a.toInt % 256 := by
  rw [show (0xff : Int64) = Int64.ofNat (2 ^ 8 - 1) by decide, Word.toInt_lowBits a (by decide)]
  rfl

theorem toInt_half (a : Int64) : (a &&& 0xffff).toInt = a.toInt % 65536 := by
  rw [show (0xffff : Int64) = Int64.ofNat (2 ^ 16 - 1) by decide, Word.toInt_lowBits a (by decide)]
  rfl

/-- The low byte and the low half do not depend on the sign. -/
theorem unsigned_emod (v : Int) (w : Width) {m : Int} (hm : m ∣ 2 ^ 32) :
    unsigned v w % m = v % m := by
  apply Int.emod_emod_of_dvd
  cases w with
  | w32 => exact hm
  | w64 => exact Int.dvd_trans hm (by decide)

/-- A unary operator on a word is the operator on the integer that the word holds. -/
theorem foldUnary_exact (op : Op) (w : Width) (a : Int64) (hop : op.isUnary = true) :
    (foldUnary op w a).map Constant.exact = (evaluateOp op w [a.toInt]).map cut := by
  cases op with
  | neg => exact congrArg some (exact_of_wrapped (Int64.toInt_neg a) w)
  | bnot => exact congrArg some (exact_of_wrapped (Int64.toInt_not a) w)
  | lnot =>
    have h : (a == 0) = (a.toInt == 0) := by
      rw [Bool.eq_iff_iff, beq_iff_eq, beq_iff_eq, ← Int64.toInt_inj, Int64.toInt_zero]
    simp only [foldUnary, evaluateOp, Option.map_some, exact_ofBool, h]
  | lsb =>
    simp only [foldUnary, evaluateOp, Option.map_some, exact_atWidth, toInt_byte, cut,
      unsigned_emod a.toInt w (show (256 : Int) ∣ 2 ^ 32 by decide)]
  | lsh =>
    simp only [foldUnary, evaluateOp, Option.map_some, exact_atWidth, toInt_half, cut,
      unsigned_emod a.toInt w (show (65536 : Int) ∣ 2 ^ 32 by decide)]
  | _ => contradiction

theorem position?_eq (v : Int64) (limit : Nat) :
    position? v limit =
      if 0 ≤ v.toInt ∧ v.toInt < limit then some v.toInt.toNat else none := by
  simp only [position?, Int64.le_iff_toInt_le, Int64.toInt_zero]

/-- A bitwise operation on words, cut to a width, is carried out on the bits of the width. -/
theorem exact_bitwise (f : {n : Nat} → BitVec n → BitVec n → BitVec n)
    (hf : ∀ (n : Nat) (x y : BitVec 64), (f x y).setWidth n = f (x.setWidth n) (y.setWidth n))
    (w : Width) (a b c : Int64) (hc : c.toBitVec = f a.toBitVec b.toBitVec) :
    (Constant.atWidth c w).exact = cut (bitwise f w a.toInt b.toInt, w) := by
  have hn := bits_le_word w
  have hbits : BitVec.ofInt w.bits c.toInt =
      f (BitVec.ofInt w.bits a.toInt) (BitVec.ofInt w.bits b.toInt) := by
    rw [ofInt_toInt c hn, ofInt_toInt a hn, ofInt_toInt b hn, hc, hf]
  rw [exact_atWidth, cut, bitwise, reduce_eq_toInt c.toInt, hbits, reduce_eq_toInt,
    BitVec.ofInt_toInt]

/-- A shift to the right that brings in zeros divides the unsigned reading. -/
theorem toInt_shiftRightLogical (w : Width) (a : Int64) {s : Nat} (hs : s < 64) :
    (shiftRightLogical w a s).toInt = (unsigned a.toInt w / 2 ^ s).bmod (2 ^ 64) := by
  have hmod : s % 64 = s := Nat.mod_eq_of_lt hs
  have hword : (a.toUInt64.toNat : Int) = a.toInt % 2 ^ 64 := Word.toNat_toUInt64 a
  cases w with
  | w32 =>
    have hnat : (a.toUInt64.toUInt32.toUInt64 >>> UInt64.ofNat s).toNat =
        a.toUInt64.toNat % 2 ^ 32 / 2 ^ s := by
      simp [Nat.shiftRight_eq_div_pow, hmod]
    rw [shiftRightLogical, Word.toInt_toInt64, hnat, Int.natCast_ediv, Int.natCast_emod, hword,
      Int.emod_emod_of_dvd _ (show ((2 ^ 32 : Nat) : Int) ∣ 2 ^ 64 by decide), Int.natCast_pow]
    rfl
  | w64 =>
    have hnat : (a.toUInt64 >>> UInt64.ofNat s).toNat = a.toUInt64.toNat / 2 ^ s := by
      simp [Nat.shiftRight_eq_div_pow, hmod]
    rw [shiftRightLogical, Word.toInt_toInt64, hnat, Int.natCast_ediv, hword, Int.natCast_pow]
    rfl

/-- One byte of the unsigned reading is a byte of the word. -/
theorem unsigned_byte (v : Int) (w : Width) {n : Nat} (hn : n < w.bits / 8) :
    unsigned v w / 2 ^ (8 * n) % 256 = v / 2 ^ (8 * n) % 256 := by
  have hlow : (2 : Int) ^ (8 * n) ≠ 0 := Int.pow_ne_zero (by decide)
  have hmodulus : (w.modulus : Int) = 2 ^ (8 * n) * (256 * 2 ^ (w.bits - 8 * n - 8)) := by
    have : w.bits = 8 * n + (8 + (w.bits - 8 * n - 8)) := by omega
    have h : w.modulus = 2 ^ (8 * n + (8 + (w.bits - 8 * n - 8))) := by rw [← this]; rfl
    rw [h]
    push_cast
    rw [Int.pow_add, Int.pow_add]
    rfl
  have hquotient : unsigned v w / 2 ^ (8 * n) =
      v / 2 ^ (8 * n) + -(256 * (2 ^ (w.bits - 8 * n - 8) * (v / w.modulus))) := by
    rw [← Int.add_mul_ediv_left _ _ hlow, unsigned, Int.emod_def, Int.sub_eq_add_neg,
      Int.mul_neg, ← Int.mul_assoc 256, ← Int.mul_assoc, ← hmodulus]
  rw [hquotient]
  omega

theorem powerOfTwo_natCast (s : Nat) : powerOfTwo s = 2 ^ s :=
  Int.natCast_pow 2 s

/-- An operation that takes a word as a position, undefined outside of the limit. -/
theorem exact_position (w : Width) (v : Int64) (limit : Nat) {f : Nat → Int64} {z : Int}
    (h : ∀ s : Nat, s < limit → v.toInt = s → (f s).toInt = z.bmod (2 ^ 64)) :
    (do return Constant.atWidth (f (← position? v limit)) w : Option Constant).map Constant.exact =
      (if 0 ≤ v.toInt ∧ v.toInt < limit then some (z, w) else none).map cut := by
  rw [position?_eq]
  split
  · rename_i hv
    have hnat : v.toInt = v.toInt.toNat := by omega
    exact congrArg some (exact_of_wrapped (h v.toInt.toNat (by omega) hnat) w)
  · rfl

/-- The truth value that two words compare to. -/
theorem exact_truth {b b' : Bool} (h : b = b') :
    (some (Constant.ofBool b)).map Constant.exact =
      (some ((if b' then 1 else 0 : Int), Width.w32)).map cut := by
  rw [h, Option.map_some, exact_ofBool, Option.map_some]

theorem beq_toInt (a b : Int64) : (a == b) = (a.toInt == b.toInt) := by
  rw [Bool.eq_iff_iff, beq_iff_eq, beq_iff_eq, Int64.toInt_inj]

theorem bne_toInt (a b : Int64) : (a != b) = (a.toInt != b.toInt) := by
  rw [bne, bne, beq_toInt]

/-- A binary operator on words is the operator on the integers that the words hold. -/
theorem foldBinary_exact (op : Op) (w : Width) (a b : Int64) (hop : op.isUnary = false) :
    (foldBinary op w a b).map Constant.exact = (evaluateOp op w [a.toInt, b.toInt]).map cut := by
  have hbits := bits_le_word w
  cases op with
  | plus => exact congrArg some (exact_of_wrapped (Int64.toInt_add a b) w)
  | minus => exact congrArg some (exact_of_wrapped (Int64.toInt_sub a b) w)
  | mult => exact congrArg some (exact_of_wrapped (Int64.toInt_mul a b) w)
  | div =>
    simp only [foldBinary, evaluateOp, beq_toInt, Int64.toInt_zero, beq_iff_eq]
    split
    · rfl
    · exact congrArg some (exact_of_wrapped (Int64.toInt_div a b) w)
  | mod =>
    simp only [foldBinary, evaluateOp, beq_toInt, Int64.toInt_zero, beq_iff_eq]
    split
    · rfl
    · refine congrArg some (exact_of_wrapped ?_ w)
      rw [← Int64.toInt_mod]
      exact (Int64.toInt_bmod _).symm
  | band => exact congrArg some (exact_bitwise _ (fun _ _ _ => BitVec.setWidth_and) w a b _ rfl)
  | bor => exact congrArg some (exact_bitwise _ (fun _ _ _ => BitVec.setWidth_or) w a b _ rfl)
  | bxor => exact congrArg some (exact_bitwise _ (fun _ _ _ => BitVec.setWidth_xor) w a b _ rfl)
  | eq => exact exact_truth (beq_toInt a b)
  | ne => exact exact_truth (bne_toInt a b)
  | lt => exact exact_truth (decide_eq_decide.mpr Int64.lt_iff_toInt_lt)
  | le => exact exact_truth (decide_eq_decide.mpr Int64.le_iff_toInt_le)
  | gt => exact exact_truth (decide_eq_decide.mpr Int64.lt_iff_toInt_lt)
  | ge => exact exact_truth (decide_eq_decide.mpr Int64.le_iff_toInt_le)
  | land => exact exact_truth (by rw [bne_toInt, bne_toInt, Int64.toInt_zero])
  | lor => exact exact_truth (by rw [bne_toInt, bne_toInt, Int64.toInt_zero])
  | shiftLt | lsl =>
    refine exact_position w b w.bits fun s hs hb => ?_
    rw [hb, powerOfTwo_natCast, Word.toInt_shiftLeft a (by omega)]
  | shiftRt | asr =>
    refine exact_position w b w.bits fun s hs hb => ?_
    rw [hb, powerOfTwo_natCast, ← Word.toInt_shiftRight a (show s < 64 by omega)]
    exact (Int64.toInt_bmod _).symm
  | lsr =>
    refine exact_position w b w.bits fun s hs hb => ?_
    rw [hb, powerOfTwo_natCast, toInt_shiftRightLogical w a (by omega)]
  | xbyte =>
    refine exact_position w a (w.bits / 8) fun n hn ha => ?_
    have hpower : powerOfTwo (8 * n) = 2 ^ (8 * n) := powerOfTwo_natCast (8 * n)
    rw [ha, toInt_byte, Word.toInt_shiftRight b (show 8 * n < 64 by omega), hpower,
      unsigned_byte b.toInt w hn, Int.bmod_eq_of_le (by omega) (by omega)]
  | range => rfl
  | _ => contradiction

/-! ### Operators on constants -/

/-- An operator on exact values, at the widest of their widths. -/
def evaluateApply (op : Op) (values : List (Int × Width)) : Option (Int × Width) :=
  let w := joinWidths (values.map (·.2))
  (evaluateOp op w (values.map fun (v, _) => reduce v w)).map cut

theorem evaluateExact_apply (op : Op) (args : List Expr) :
    (Expr.apply op args).evaluateExact = (Expr.evaluateAll args).bind (evaluateApply op) := by
  rw [Expr.evaluateExact]
  cases Expr.evaluateAll args with
  | none => rfl
  | some values =>
    simp only [evaluateApply, Option.bind_eq_bind, Option.bind_some]
    cases evaluateOp op _ _ <;> rfl

/-- An operator with the wrong number of operands has no value. -/
theorem evaluateOp_arity (op : Op) (w : Width) (values : List Int)
    (hunary : ∀ a, op.isUnary = true → values ≠ [a])
    (hbinary : ∀ a b, op.isUnary = false → values ≠ [a, b]) : evaluateOp op w values = none := by
  rcases values with _ | ⟨a, _ | ⟨b, _ | ⟨c, rest⟩⟩⟩
  · cases op <;> rfl
  · cases op <;> first
      | rfl
      | exact absurd rfl (hunary a rfl)
  · cases op <;> first
      | rfl
      | exact absurd rfl (hbinary a b rfl)
  · cases op <;> rfl

/-- A constant may be taken at a width without being cut to its own first. -/
def Constant.FitsAt (w : Width) (c : Constant) : Prop :=
  reduce c.exact.1 w = reduce c.value.toInt w

/-- Operands that may be taken at the widest width are evaluated there. -/
theorem evaluateApply_exact (op : Op) (cs : List Constant)
    (h : ∀ c ∈ cs, c.FitsAt (joinWidths (cs.map Constant.width))) :
    evaluateApply op (cs.map Constant.exact) =
      (evaluateOp op (joinWidths (cs.map Constant.width))
        (cs.map fun c => ((joinWidths (cs.map Constant.width)).normalize c.value).toInt)).map
          cut := by
  have hwidths : (cs.map Constant.exact).map (·.2) = cs.map Constant.width := by
    rw [List.map_map]
    rfl
  simp only [evaluateApply, hwidths, List.map_map]
  congr 2
  apply List.map_congr_left
  intro c hc
  rw [toInt_normalize]
  exact h c hc

/-- An operator on constants is the operator on the exact values that they stand for. -/
theorem foldOp_exact (op : Op) (cs : List Constant)
    (h : ∀ c ∈ cs, c.FitsAt (joinWidths (cs.map Constant.width))) :
    (foldOp op cs).map Constant.exact = evaluateApply op (cs.map Constant.exact) := by
  rw [evaluateApply_exact op cs h]
  unfold foldOp
  dsimp only
  split
  · rename_i a hop
    exact foldUnary_exact op _ _ hop
  · rename_i a b hop
    exact foldBinary_exact op _ _ _ hop
  · rename_i hunary hbinary
    rw [evaluateOp_arity]
    · rfl
    · intro a hop hcs
      obtain ⟨c, rfl, rfl⟩ := List.map_eq_singleton_iff.mp hcs
      exact hunary c hop rfl
    · intro a b hop hcs
      obtain ⟨c, rest, rfl, rfl, hrest⟩ := List.map_eq_cons_iff.mp hcs
      obtain ⟨c', rfl, rfl⟩ := List.map_eq_singleton_iff.mp hrest
      exact hbinary c c' hop rfl

/-! ### Expressions -/

mutual

/-- The constants that occur, from left to right. -/
def Expr.constants : Expr → List Constant
  | .const c => [c]
  | .var _ => []
  | .apply _ args => Expr.constantsOf args

/-- The constants that occur in a list of expressions, from left to right. -/
def Expr.constantsOf : List Expr → List Constant
  | [] => []
  | a :: rest => a.constants ++ Expr.constantsOf rest

end

/-- A result of folding: a word cut to the width of the operation, or a truth value. -/
inductive IsResult (w : Width) : Constant → Prop
  | word (v : Int64) : IsResult w (.atWidth v w)
  | truth (b : Bool) : IsResult w (.ofBool b)

theorem isResult_position (w : Width) (v : Int64) (limit : Nat) (f : Nat → Int64) {c : Constant}
    (h : (do return Constant.atWidth (f (← position? v limit)) w : Option Constant) = some c) :
    IsResult w c := by
  obtain ⟨s, -, hs⟩ := Option.bind_eq_some_iff.mp h
  exact Option.some.inj hs ▸ .word _

theorem foldUnary_isResult {op : Op} {w : Width} {a : Int64} {c : Constant}
    (h : foldUnary op w a = some c) : IsResult w c := by
  cases op with
  | neg | bnot | lsb | lsh => exact Option.some.inj h ▸ .word _
  | lnot => exact Option.some.inj h ▸ .truth _
  | _ => contradiction

theorem foldBinary_isResult {op : Op} {w : Width} {a b : Int64} {c : Constant}
    (h : foldBinary op w a b = some c) : IsResult w c := by
  cases op with
  | plus | minus | mult | band | bor | bxor => exact Option.some.inj h ▸ .word _
  | eq | ne | lt | le | gt | ge | land | lor => exact Option.some.inj h ▸ .truth _
  | div | mod =>
    simp only [foldBinary] at h
    split at h
    · contradiction
    · exact Option.some.inj h ▸ .word _
  | shiftLt | lsl | shiftRt | asr | lsr | xbyte => exact isResult_position w _ _ _ h
  | _ => contradiction

theorem foldOp_isResult {op : Op} {cs : List Constant} {c : Constant} (h : foldOp op cs = some c) :
    IsResult (joinWidths (cs.map Constant.width)) c := by
  simp only [foldOp] at h
  split at h
  · exact foldUnary_isResult h
  · exact foldBinary_isResult h
  · contradiction

/-- A class of constants on which folding is evaluation: each may be taken at the width of an
operation with its like, and results are again in the class. -/
structure Foldable (P : Constant → Prop) : Prop where
  fits : ∀ cs : List Constant, (∀ c ∈ cs, P c) →
    ∀ c ∈ cs, c.FitsAt (joinWidths (cs.map Constant.width))
  closed : ∀ cs : List Constant, (∀ c ∈ cs, P c) →
    ∀ c, IsResult (joinWidths (cs.map Constant.width)) c → P c

mutual

/-- Read as exact values, folding is evaluation, and its results stay in the class. -/
theorem fold_exact {P : Constant → Prop} (hP : Foldable P) :
    ∀ x : Expr, (∀ c ∈ x.constants, P c) →
      x.fold.map Constant.exact = x.evaluateExact ∧ ∀ c, x.fold = some c → P c
  | .const c, h => by
    rw [Expr.fold, Expr.evaluateExact]
    rw [Expr.constants] at h
    exact ⟨rfl, fun c' hc' => Option.some.inj hc' ▸ h c (List.mem_singleton_self c)⟩
  | .var v, _ => by
    rw [Expr.fold, Expr.evaluateExact]
    exact ⟨rfl, fun c hc => nomatch hc⟩
  | .apply op args, h => by
    rw [Expr.constants] at h
    obtain ⟨hexact, hclass⟩ := foldAll_exact hP args h
    rw [Expr.fold, evaluateExact_apply, ← hexact]
    cases hargs : Expr.foldAll args with
    | none => exact ⟨rfl, fun c hc => nomatch hc⟩
    | some cs =>
      have hcs := hclass cs hargs
      exact ⟨foldOp_exact op cs (hP.fits cs hcs),
        fun c hc => hP.closed cs hcs c (foldOp_isResult hc)⟩

theorem foldAll_exact {P : Constant → Prop} (hP : Foldable P) :
    ∀ xs : List Expr, (∀ c ∈ Expr.constantsOf xs, P c) →
      (Expr.foldAll xs).map (·.map Constant.exact) = Expr.evaluateAll xs ∧
        ∀ cs, Expr.foldAll xs = some cs → ∀ c ∈ cs, P c
  | [], _ => by
    rw [Expr.foldAll, Expr.evaluateAll]
    exact ⟨rfl, fun cs hcs c hc => nomatch Option.some.inj hcs ▸ hc⟩
  | a :: rest, h => by
    rw [Expr.constantsOf] at h
    obtain ⟨ha, hPa⟩ := fold_exact hP a fun c hc => h c (List.mem_append_left _ hc)
    obtain ⟨hrest, hPrest⟩ := foldAll_exact hP rest fun c hc => h c (List.mem_append_right _ hc)
    rw [Expr.foldAll, Expr.evaluateAll, ← ha, ← hrest]
    cases hfold : a.fold with
    | none => exact ⟨rfl, fun cs hcs => nomatch hcs⟩
    | some c =>
      cases hall : Expr.foldAll rest with
      | none => exact ⟨rfl, fun cs hcs => nomatch hcs⟩
      | some cs =>
        refine ⟨rfl, fun cs' hcs' c' hc' => ?_⟩
        rw [← Option.some.inj hcs'] at hc'
        rcases List.mem_cons.mp hc' with rfl | hc'
        · exact hPa c' hfold
        · exact hPrest cs hall c' hc'

end

/-! ### Normal constants -/

/-- An integer constant that is normal at its own width. -/
def Constant.IsNormal : Constant → Prop
  | .int v w => w.normalize v = v
  | .address _ => False

instance : DecidablePred Constant.IsNormal
  | .int v w => inferInstanceAs (Decidable (w.normalize v = v))
  | .address _ => inferInstanceAs (Decidable False)

theorem reduce_of_normal {v : Int64} {w : Width} (h : w.normalize v = v) :
    reduce v.toInt w = v.toInt := by
  rw [← toInt_normalize, h]

theorem isNormal_of_isResult {w : Width} {c : Constant} (h : IsResult w c) : c.IsNormal := by
  cases h with
  | word v =>
    show w.normalize (w.normalize v) = w.normalize v
    rw [← Int64.toInt_inj, toInt_normalize, toInt_normalize, reduce_reduce]
  | truth b => cases b <;> rfl

/-- Cutting a normal constant to its own width first changes nothing. -/
theorem Constant.IsNormal.fitsAt {c : Constant} (h : c.IsNormal) (w : Width) : c.FitsAt w := by
  cases c with
  | int v w' => exact congrArg (reduce · w) (reduce_of_normal h)
  | address a => exact h.elim

theorem foldable_isNormal : Foldable Constant.IsNormal where
  fits _ h c hc := (h c hc).fitsAt _
  closed _ _ _ := isNormal_of_isResult

/-- A normal constant is what its exact value is written as. -/
theorem ofExact_of_isNormal {c : Constant} (h : c.IsNormal) :
    Constant.atWidth (Int64.ofInt c.exact.1) c.exact.2 = c := by
  cases c with
  | int v w =>
    show Constant.atWidth (Int64.ofInt (reduce v.toInt w)) w = .int v w
    rw [reduce_of_normal h, Int64.ofInt_toInt, Constant.atWidth, h]
  | address a => exact h.elim

/-- **Folding agrees with evaluation.** On every expression whose constants are integers normal at
their widths, however it nests, whatever its operators, numbers of operands and mixture of widths,
both have no value or both have the same constant. With a variable in it neither has a value. -/
theorem fold_eq_evaluate (x : Expr) (h : ∀ c ∈ x.constants, c.IsNormal) : x.fold = x.evaluate := by
  obtain ⟨hexact, hnormal⟩ := fold_exact foldable_isNormal x h
  rw [Expr.evaluate, ← hexact, Option.map_map]
  cases hx : x.fold with
  | none => rfl
  | some c => exact congrArg some (ofExact_of_isNormal (hnormal c hx)).symm

/-- The smallest 32-bit word divided by minus one wraps around at 32 bits, and the sum with a 64-bit
constant is taken at 64 bits. -/
theorem fold_eq_evaluate_across_widths :
    let x : Expr := .apply .plus
      [.apply .div [.const (.int (-2147483648) .w32), .const (.int (-1) .w32)],
        .const (.int 1 .w64)]
    (∀ c ∈ x.constants, c.IsNormal) ∧ x.fold = x.evaluate ∧
      x.evaluate = some (.int (-2147483647) .w64) :=
  ⟨by decide, fold_eq_evaluate _ (by decide), by decide⟩

end FactLift.Sym
