import FactLift.Word
import Mathlib.Algebra.Group.Int.Defs
import Mathlib.Algebra.Group.Nat.Defs

/-! Machine words read as integers.

What shifts and masks do to a signed word, said over the integers: a shift to the left multiplies
and wraps around, a shift to the right divides and rounds down, and a mask of low bits is a
remainder. -/

namespace FactLift.Word

/-- A shift amount below the width is taken as it is. -/
theorem shiftAmount_64 : ∀ s < 64, ((BitVec.ofNat 64 s).smod 64#64).toNat = s := by
  decide

/-- A shift to the left multiplies, and wraps around. -/
theorem toInt_shiftLeft_bits {n : Nat} (x : BitVec n) (s : Nat) :
    (x <<< s).toInt = (x.toInt * 2 ^ s).bmod (2 ^ n) := by
  rw [BitVec.toInt_shiftLeft, Nat.shiftLeft_eq, BitVec.toInt_eq_toNat_bmod x]
  push_cast
  rw [Int.bmod_mul_bmod]

/-- A shift to the right divides, and rounds down. -/
theorem toInt_shiftRight_bits {n : Nat} (x : BitVec n) (s : Nat) :
    (x.sshiftRight s).toInt = x.toInt / 2 ^ s := by
  rw [BitVec.toInt_sshiftRight, Int.shiftRight_eq_div_pow]
  norm_cast

theorem toInt_shiftLeft (a : Int64) {s : Nat} (hs : s < 64) :
    (a <<< Int64.ofNat s).toInt = (a.toInt * 2 ^ s).bmod (2 ^ 64) := by
  rw [← Int64.toInt_toBitVec, Int64.toBitVec_shiftLeft, Int64.toBitVec_ofNat', BitVec.shiftLeft_eq',
    show (64 : BitVec 64) = 64#64 from rfl, shiftAmount_64 s hs]
  exact toInt_shiftLeft_bits a.toBitVec s

theorem toInt_shiftRight (a : Int64) {s : Nat} (hs : s < 64) :
    (a >>> Int64.ofNat s).toInt = a.toInt / 2 ^ s := by
  rw [← Int64.toInt_toBitVec, Int64.toBitVec_shiftRight, Int64.toBitVec_ofNat',
    BitVec.sshiftRight_eq', show (64 : BitVec 64) = 64#64 from rfl, shiftAmount_64 s hs]
  exact toInt_shiftRight_bits a.toBitVec s

/-- A quotient by a size that is not negative as a word is a word. -/
theorem overflows_ofNat (v : Int64) {size : Nat} (hfits : size < 2 ^ 63) :
    overflows v (Int64.ofNat size) = false := by
  have hne : Int64.ofNat size ≠ -1 := by
    intro h
    have hsize : (Int64.ofNat size).toInt = size := Int64.toInt_ofNat_of_lt hfits
    rw [h] at hsize
    exact absurd (hsize.symm.trans (by decide : (-1 : Int64).toInt = -1)) (by omega)
  simp [overflows, hne]

/-- Extending the low half of a word with its sign is cutting the word to 32 bits. -/
theorem widen_32 (v : Int64) : widen v 32 true = Width.w32.normalize v := by
  have hshifts : (widen v 32 true).toInt = (v.toInt * 2 ^ 32).bmod (2 ^ 64) / 2 ^ 32 := by
    show ((v <<< Int64.ofNat 32) >>> Int64.ofNat 32).toInt = _
    rw [toInt_shiftRight _ (by decide), toInt_shiftLeft _ (by decide)]
  have hcut : (v.toInt * 2 ^ 32).bmod (2 ^ 64) / 2 ^ 32 = v.toInt.bmod (2 ^ 32) := by
    rw [Int.bmod_def, Int.bmod_def]
    omega
  rw [← Int64.toInt_inj, hshifts, hcut, Width.normalize, Int32.toInt_toInt64, Int64.toInt_toInt32]

theorem shiftAmount_32 : ∀ s < 32, ((BitVec.ofNat 32 s).smod 32#32).toNat = s := by
  decide

theorem toInt_shiftLeft_32 (a : Int32) {s : Nat} (hs : s < 32) :
    (a <<< Int32.ofNat s).toInt = (a.toInt * 2 ^ s).bmod (2 ^ 32) := by
  rw [← Int32.toInt_toBitVec, Int32.toBitVec_shiftLeft, Int32.toBitVec_ofNat', BitVec.shiftLeft_eq',
    show (32 : BitVec 32) = 32#32 from rfl, shiftAmount_32 s hs]
  exact toInt_shiftLeft_bits a.toBitVec s

theorem toInt_shiftRight_32 (a : Int32) {s : Nat} (hs : s < 32) :
    (a >>> Int32.ofNat s).toInt = a.toInt / 2 ^ s := by
  rw [← Int32.toInt_toBitVec, Int32.toBitVec_shiftRight, Int32.toBitVec_ofNat',
    BitVec.sshiftRight_eq', show (32 : BitVec 32) = 32#32 from rfl, shiftAmount_32 s hs]
  exact toInt_shiftRight_bits a.toBitVec s

/-- The unsigned reading of a word. -/
theorem toNat_toUInt64 (a : Int64) : (a.toUInt64.toNat : Int) = a.toInt % 2 ^ 64 := by
  have h : a.toInt = (a.toUInt64.toNat : Int).bmod (2 ^ 64) := BitVec.toInt_eq_toNat_bmod a.toBitVec
  have hlt := a.toUInt64.toNat_lt
  rw [h, show ((2 : Int) ^ 64) = ((2 ^ 64 : Nat) : Int) from rfl, Int.bmod_emod,
    Int.emod_eq_of_lt] <;> omega

/-- The signed reading of an unsigned word. -/
theorem toInt_toInt64 (u : UInt64) : u.toInt64.toInt = (u.toNat : Int).bmod (2 ^ 64) :=
  BitVec.toInt_eq_toNat_bmod u.toBitVec

/-- A mask of the low bits takes the remainder. -/
theorem toInt_lowBits (a : Int64) {k : Nat} (hk : k < 64) :
    (a &&& Int64.ofNat (2 ^ k - 1)).toInt = a.toInt % 2 ^ k := by
  have hpow : 2 ^ k ≤ 2 ^ 63 := Nat.pow_le_pow_right (by decide) (by omega)
  have hmask : (a &&& Int64.ofNat (2 ^ k - 1)).toUInt64.toNat = a.toUInt64.toNat % 2 ^ k := by
    rw [Int64.toUInt64_and, UInt64.toNat_and,
      show (Int64.ofNat (2 ^ k - 1)).toUInt64.toNat = (2 ^ k - 1) % 2 ^ 64 from rfl,
      Nat.mod_eq_of_lt (by omega), Nat.and_two_pow_sub_one_eq_mod]
  have hlt : a.toUInt64.toNat % 2 ^ k < 2 ^ k := Nat.mod_lt _ (Nat.two_pow_pos k)
  calc (a &&& Int64.ofNat (2 ^ k - 1)).toInt
      = ((a.toUInt64.toNat % 2 ^ k : Nat) : Int).bmod (2 ^ 64) := by
        rw [← hmask]
        exact toInt_toInt64 _
    _ = (a.toUInt64.toNat : Int) % 2 ^ k := by
        rw [Int.bmod_eq_of_le (by omega) (by omega)]
        norm_cast
    _ = a.toInt % 2 ^ k := by
        rw [toNat_toUInt64, Int.emod_emod_of_dvd]
        exact_mod_cast Nat.pow_dvd_pow 2 (show k ≤ 64 by omega)

end FactLift.Word
