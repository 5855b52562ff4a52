import FactLift.Lift.Operator
import FactLift.Proofs.C.IntValue
import FactLift.Proofs.Sym.Exact

/-! C operators compute what the symbolic ones do.

On 32-bit words, the C operator that stands for a symbolic one has the value that evaluation over
the integers gives, or both have none (`onInt_exact`, `onInt?_exact`); a byte is a shift and a mask
(`xbyte_exact`). The shift to the right that brings in zeros is left out: over `int` it has no
counterpart. -/

namespace FactLift

open C

/-- A 32-bit word as an exact value. -/
def exactInt (n : Int32) : Int × Width :=
  (n.toInt, .w32)

theorem reduce_toInt (n : Int32) : Sym.reduce n.toInt .w32 = n.toInt :=
  n.toInt_bmod

theorem cut_exactInt (n : Int32) : Sym.cut (exactInt n) = exactInt n := by
  rw [exactInt, Sym.cut, reduce_toInt]

/-- An operator on exact values that are 32-bit words. -/
theorem evaluateApply_ints (op : Sym.Op) (ns : List Int32) :
    Sym.evaluateApply op (ns.map exactInt) =
      (Sym.evaluateOp op .w32 (ns.map Int32.toInt)).map Sym.cut := by
  have hwidth : Sym.joinWidths ((ns.map exactInt).map (·.2)) = .w32 := by
    unfold Sym.joinWidths
    induction ns with
    | nil => rfl
    | cons n rest ih => exact ih
  rw [Sym.evaluateApply, hwidth, List.map_map]
  exact congrArg (fun values => (Sym.evaluateOp op .w32 values).map Sym.cut)
    (List.map_congr_left fun n _ => reduce_toInt n)

/-- A word that holds an integer up to wrapping around is that integer, cut. -/
theorem cut_eq_exactInt {n : Int32} {z : Int} (h : n.toInt = z.bmod (2 ^ 32)) :
    Sym.cut (z, .w32) = exactInt n := by
  rw [exactInt, h]
  rfl

theorem cut_truth {b b' : Bool} (h : b = b') :
    Sym.cut (if b then 1 else 0, .w32) = exactInt (truth b') := by
  subst h
  cases b <;> rfl

theorem toInt_beq (a b : Int32) : (a.toInt == b.toInt) = (a == b) := by
  rw [Bool.eq_iff_iff, beq_iff_eq, beq_iff_eq, Int32.toInt_inj]

theorem toInt_bne (a b : Int32) : (a.toInt != b.toInt) = (a != b) := by
  rw [bne, bne, toInt_beq]

theorem toInt_eq_zero {b : Int32} : b.toInt = 0 ↔ b = 0 := by
  rw [← Int32.toInt_zero, Int32.toInt_inj]

/-- An operator with one operand on a word is the operator on the integer that the word holds. -/
theorem onInt_exact {op : Sym.Op} {o : UnOp} (h : op.unOp? = some o) (a : Int32) :
    (Sym.evaluateOp op .w32 [a.toInt]).map Sym.cut = some (exactInt (o.onInt a)) := by
  cases op with
  | bnot =>
    cases h
    exact congrArg some (cut_eq_exactInt (Int32.toInt_not a))
  | neg =>
    cases h
    exact congrArg some (cut_eq_exactInt (Int32.toInt_neg a))
  | lnot =>
    cases h
    exact congrArg some (cut_truth (toInt_beq a 0))
  | _ => contradiction

/-- A bitwise operation on words is carried out on the bits of the integers. -/
theorem cut_bitwise (f : {n : Nat} → BitVec n → BitVec n → BitVec n) {a b c : Int32}
    (hc : c.toBitVec = f a.toBitVec b.toBitVec) :
    Sym.cut (Sym.bitwise f .w32 a.toInt b.toInt, .w32) = exactInt c := by
  have hbits (n : Int32) : BitVec.ofInt 32 n.toInt = n.toBitVec := by
    rw [← Int32.toInt_toBitVec, BitVec.ofInt_toInt]
  have hvalue : Sym.bitwise f .w32 a.toInt b.toInt = c.toInt := by
    show (f (BitVec.ofInt 32 a.toInt) (BitVec.ofInt 32 b.toInt)).toInt = c.toInt
    rw [hbits, hbits, ← hc, Int32.toInt_toBitVec]
  rw [hvalue]
  exact cut_exactInt c

/-- A shift, undefined unless by 0 to 31 places. -/
theorem shift_exact {f : Int32 → Int32} {z : Int} (b : Int32)
    (h : ∀ s : Nat, s < 32 → b.toInt = s → (f (Int32.ofNat s)).toInt = z.bmod (2 ^ 32)) :
    (if 0 ≤ b.toInt ∧ b.toInt < Width.w32.bits then some (z, Width.w32) else none).map Sym.cut =
      (if 0 ≤ b ∧ b < 32 then some (f b) else none).map exactInt := by
  have hrange : (0 ≤ b.toInt ∧ b.toInt < Width.w32.bits) ↔ (0 ≤ b ∧ b < 32) := by
    rw [Int32.le_iff_toInt_le, Int32.lt_iff_toInt_lt]
    rfl
  by_cases hb : 0 ≤ b ∧ b < 32
  · rw [if_pos hb, if_pos (hrange.mpr hb)]
    obtain ⟨hlow, hhigh⟩ : 0 ≤ b.toInt ∧ b.toInt < 32 := hrange.mpr hb
    have hnat : b.toInt = b.toInt.toNat := by omega
    have hword : Int32.ofNat b.toInt.toNat = b := by
      rw [← Int32.toInt_inj, Int32.toInt_ofNat', ← hnat]
      exact reduce_toInt b
    have hvalue := h b.toInt.toNat (by omega) hnat
    rw [hword] at hvalue
    exact congrArg some (cut_eq_exactInt hvalue)
  · rw [if_neg hb, if_neg fun h => hb (hrange.mp h)]
    rfl

/-- An operator with two operands on words is the operator on the integers that the words hold. -/
theorem onInt?_exact {op : Sym.Op} {o : BinOp} (h : op.binOp? = some o) (hop : op ≠ .lsr)
    (a b : Int32) :
    (Sym.evaluateOp op .w32 [a.toInt, b.toInt]).map Sym.cut = (o.onInt? a b).map exactInt := by
  cases op with
  | plus =>
    cases h
    exact congrArg some (cut_eq_exactInt (Int32.toInt_add a b))
  | minus =>
    cases h
    exact congrArg some (cut_eq_exactInt (Int32.toInt_sub a b))
  | mult =>
    cases h
    exact congrArg some (cut_eq_exactInt (Int32.toInt_mul a b))
  | div =>
    cases h
    simp only [Sym.evaluateOp, BinOp.onInt?, toInt_eq_zero]
    split
    · rfl
    · exact congrArg some (cut_eq_exactInt (Int32.toInt_div a b))
  | mod =>
    cases h
    simp only [Sym.evaluateOp, BinOp.onInt?, toInt_eq_zero]
    split
    · rfl
    · rw [← Int32.toInt_mod]
      exact congrArg some (cut_exactInt (a % b))
  | band =>
    cases h
    exact congrArg some (cut_bitwise _ (Int32.toBitVec_and a b))
  | bor =>
    cases h
    exact congrArg some (cut_bitwise _ (Int32.toBitVec_or a b))
  | bxor =>
    cases h
    exact congrArg some (cut_bitwise _ (Int32.toBitVec_xor a b))
  | eq =>
    cases h
    exact congrArg some (cut_truth (toInt_beq a b))
  | ne =>
    cases h
    exact congrArg some (cut_truth (toInt_bne a b))
  | lt | gt =>
    cases h
    exact congrArg some (cut_truth (decide_eq_decide.mpr Int32.lt_iff_toInt_lt.symm))
  | le | ge =>
    cases h
    exact congrArg some (cut_truth (decide_eq_decide.mpr Int32.le_iff_toInt_le.symm))
  | land | lor =>
    cases h
    refine congrArg some (cut_truth ?_)
    rw [← Int32.toInt_zero, toInt_bne, toInt_bne]
  | shiftLt | lsl =>
    cases h
    refine shift_exact b fun s hs hb => ?_
    rw [hb, Sym.powerOfTwo_natCast, Word.toInt_shiftLeft_32 a hs]
  | shiftRt | asr =>
    cases h
    refine shift_exact b fun s hs hb => ?_
    rw [hb, Sym.powerOfTwo_natCast, ← Word.toInt_shiftRight_32 a hs]
    exact (reduce_toInt _).symm
  | _ => contradiction

/-! ### Bytes and halves -/

theorem toInt_lowByte (a : Int32) : (a &&& 0xff).toInt = a.toInt % 256 := by
  rw [← Int32.toInt_toInt64, Int32.toInt64_and, show (0xff : Int32).toInt64 = 0xff by decide,
    Sym.toInt_byte, Int32.toInt_toInt64]

theorem toInt_lowHalf (a : Int32) : (a &&& 0xffff).toInt = a.toInt % 65536 := by
  rw [← Int32.toInt_toInt64, Int32.toInt64_and, show (0xffff : Int32).toInt64 = 0xffff by decide,
    Sym.toInt_half, Int32.toInt_toInt64]

theorem lsb_exact (a : Int32) :
    (Sym.evaluateOp .lsb .w32 [a.toInt]).map Sym.cut = some (exactInt (a &&& 0xff)) := by
  rw [Sym.evaluateOp, Sym.unsigned_emod _ _ (show (256 : Int) ∣ 2 ^ 32 by decide), ← toInt_lowByte]
  exact congrArg some (cut_exactInt _)

theorem lsh_exact (a : Int32) :
    (Sym.evaluateOp .lsh .w32 [a.toInt]).map Sym.cut = some (exactInt (a &&& 0xffff)) := by
  rw [Sym.evaluateOp, Sym.unsigned_emod _ _ (show (65536 : Int) ∣ 2 ^ 32 by decide),
    ← toInt_lowHalf]
  exact congrArg some (cut_exactInt _)

/-- One byte of a word: the word shifted by eight places a byte, and masked. -/
theorem xbyte_exact {n a bits : Int32} {p : Int × Width}
    (hbits : 0 ≤ n.toInt → n.toInt < 4 → bits.toInt = 8 * n.toInt)
    (hp : (Sym.evaluateOp .xbyte .w32 [n.toInt, a.toInt]).map Sym.cut = some p) :
    ∃ s, BinOp.shiftRt.onInt? a bits = some s ∧ p = exactInt (s &&& 0xff) := by
  simp only [Sym.evaluateOp] at hp
  split at hp
  · rename_i hn
    obtain ⟨hlow, hhigh⟩ : 0 ≤ n.toInt ∧ n.toInt < 4 := hn
    have hbits := hbits hlow hhigh
    have hrange : 0 ≤ bits ∧ bits < 32 := by
      rw [Int32.le_iff_toInt_le, Int32.lt_iff_toInt_lt]
      show 0 ≤ bits.toInt ∧ bits.toInt < 32
      omega
    refine ⟨a >>> bits, by rw [BinOp.onInt?, if_pos hrange], ?_⟩
    obtain ⟨k, hk⟩ : ∃ k : Nat, n.toInt = k := ⟨n.toInt.toNat, by omega⟩
    have hword : bits = Int32.ofNat (8 * k) := by
      rw [← Int32.toInt_inj, hbits, hk, Int32.toInt_ofNat_of_lt (by omega)]
      norm_cast
    have hvalue : (a >>> bits &&& 0xff).toInt = Sym.unsigned a.toInt .w32 / 2 ^ (8 * k) % 256 := by
      rw [toInt_lowByte, hword, Word.toInt_shiftRight_32 a (by omega),
        Sym.unsigned_byte a.toInt .w32 (show k < 32 / 8 by omega)]
    have hpower : Sym.powerOfTwo (8 * k) = 2 ^ (8 * k) := Sym.powerOfTwo_natCast (8 * k)
    rw [hk, hpower, ← hvalue] at hp
    rw [← Option.some.inj hp]
    exact cut_exactInt _
  · contradiction

theorem timesEight?_eq_some {n bits : Int64} (h : timesEight? n = some bits) :
    bits.toInt = 8 * n.toInt := by
  simp only [timesEight?] at h
  split at h
  · rename_i hrange
    rw [← Option.some.inj h]
    exact Int64.toInt_ofInt_of_le hrange.1 (Int.lt_of_le_sub_one hrange.2)
  · contradiction

end FactLift
