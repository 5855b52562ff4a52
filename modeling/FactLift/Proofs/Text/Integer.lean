import FactLift.Text.Blank
import FactLift.Text.Hex
import FactLift.Text.Integer
import Mathlib.Tactic.IntervalCases

/-! Integers that are written are read back.

Digits are read from the left, so that reading one more digit at the end (`readDigits_concat`)
follows how digits are written. What was read as digits has no sign and no mark in front
(`readInt?_of_readNat?`), so that decimal and hexadecimal texts are never taken for each other. -/

namespace FactLift.Text

theorem digitValue?_digitChar {base d : Nat} (hd : d < base) (hbase : base ≤ 16) :
    digitValue? base d.digitChar = some d := by
  have h16 : d < 16 := by omega
  interval_cases d <;> simp [digitValue?, Nat.digitChar, hd]

theorem readDigits_concat (base value : Nat) (cs : List Char) (c : Char) :
    readDigits base value (cs ++ [c]) =
      (readDigits base value cs).bind fun n => (digitValue? base c).map (n * base + ·) := by
  induction cs generalizing value with
  | nil =>
    simp only [List.nil_append, readDigits, Option.bind_some]
    cases digitValue? base c <;> rfl
  | cons c' cs ih =>
    simp only [List.cons_append, readDigits]
    cases digitValue? base c' with
    | none => rfl
    | some d => exact ih _

theorem readDigits_toDigits {base : Nat} (hone : 1 < base) (hbase : base ≤ 16) (n : Nat) :
    readDigits base 0 (Nat.toDigits base n) = some n := by
  induction n using Nat.strongRecOn with
  | ind n ih =>
    rw [Nat.toDigits_eq_if hone]
    split
    next hlt => simp [readDigits, digitValue?_digitChar hlt hbase]
    next hge =>
      have hdiv : n / base < n := Nat.div_lt_self (by omega) hone
      have hmod : n % base < base := Nat.mod_lt n (by omega)
      rw [readDigits_concat, ih _ hdiv, digitValue?_digitChar hmod hbase]
      simp [Nat.div_add_mod']

theorem readNat?_toDigits {base : Nat} (hone : 1 < base) (hbase : base ≤ 16) (n : Nat) :
    readNat? base (Nat.toDigits base n) = some n := by
  cases h : Nat.toDigits base n with
  | nil => exact absurd h Nat.toDigits_ne_nil
  | cons c cs =>
    rw [readNat?, ← h]
    · exact readDigits_toDigits hone hbase n
    · nofun

theorem readNat?_decimal (n : Nat) : readNat? 10 (Nat.toDigits 10 n) = some n :=
  readNat?_toDigits (by decide) (by decide) n

/-- A text that starts with no digit is none of digits. -/
theorem readNat?_eq_none {base : Nat} {c : Char} (cs : List Char) (h : digitValue? base c = none) :
    readNat? base (c :: cs) = none := by
  simp [readNat?, readDigits, h]

theorem digitValue?_sign (base : Nat) :
    digitValue? base '-' = none ∧ digitValue? base '+' = none := by
  simp [digitValue?]

/-- Digits are read as the same number where a sign may stand in front. -/
theorem readInt?_of_readNat? {base n : Nat} {cs : List Char} (h : readNat? base cs = some n) :
    readInt? base cs = some (n : Int) := by
  unfold readInt?
  split
  · rw [readNat?_eq_none _ (digitValue?_sign base).1] at h
    contradiction
  · rw [readNat?_eq_none _ (digitValue?_sign base).2] at h
    contradiction
  · rw [h]
    rfl

theorem readInt64?_of_readInt? {base : Nat} {cs : List Char} (v : Int64)
    (h : readInt? base cs = some v.toInt) : readInt64? base cs = some v := by
  have hlow := v.le_toInt
  have hhigh := v.toInt_lt
  have hmin : Int64.minValue.toInt = -2 ^ 63 := by decide
  have hmax : Int64.maxValue.toInt = 2 ^ 63 - 1 := by decide
  rw [readInt64?, h, Option.filter_some, if_pos, Option.map_some, Int64.ofInt_toInt]
  simp only [Bool.and_eq_true, decide_eq_true_eq]
  omega

/-- A number past the end of the range is no numeral of a signed word. -/
theorem readInt64?_of_le {base n : Nat} {cs : List Char} (h : readInt? base cs = some (n : Int))
    (hn : 2 ^ 63 ≤ n) : readInt64? base cs = none := by
  have hmax : Int64.maxValue.toInt = 2 ^ 63 - 1 := by decide
  rw [readInt64?, h, Option.filter_some, if_neg, Option.map_none]
  simp only [Bool.and_eq_true, decide_eq_true_eq]
  omega

/-- Decimal digits do not start with the mark of hexadecimal ones. -/
theorem toDigits_ne_marked (n : Nat) (cs : List Char) : Nat.toDigits 10 n ≠ '0' :: 'x' :: cs := by
  intro h
  have hread := readNat?_decimal n
  have hzero : digitValue? 10 '0' = some 0 := by decide
  have hx : digitValue? 10 'x' = none := by decide
  simp [h, readNat?, readDigits, hzero, hx] at hread

theorem toDigits_ne_negative (n : Nat) (cs : List Char) : Nat.toDigits 10 n ≠ '-' :: cs := by
  intro h
  have hread := readNat?_decimal n
  rw [h, readNat?_eq_none cs (digitValue?_sign 10).1] at hread
  contradiction

theorem isDigit_of_mem_toString {n : Nat} {c : Char} (h : c ∈ (toString n).toList) :
    c.isDigit = true :=
  Nat.isDigit_of_mem_toDigits (by decide) (by decide) (Nat.toList_repr ▸ h)

/-- A decimal numeral is made of digits, and a sign. -/
theorem mem_toString_int {v : Int} {c : Char} (h : c ∈ (toString v).toList) :
    c = '-' ∨ c.isDigit = true := by
  cases v with
  | ofNat n => exact .inr (isDigit_of_mem_toString h)
  | negSucc n =>
    rw [Int.toString_eq_repr, Int.repr, String.toList_append] at h
    exact (List.mem_cons.mp h).imp_right isDigit_of_mem_toString

theorem isBlank_of_isDigit {c : Char} (h : c.isDigit = true) : isBlank c = false := by
  simp only [Char.isDigit, Bool.and_eq_true, decide_eq_true_eq, UInt32.le_iff_toNat_le] at h
  have hlow : 48 ≤ c.toNat := h.1
  have hhigh : c.toNat ≤ 57 := h.2
  simp only [isBlank, Bool.or_eq_false_iff, Bool.and_eq_false_iff, decide_eq_false_iff_not,
    beq_eq_false_iff_ne]
  omega

/-- What is written in decimal is read back. -/
theorem parseInt64?_toString (v : Int64) : parseInt64? (toString v.toInt) = some v := by
  cases hv : v.toInt with
  | ofNat n =>
    have hlist : (toString (Int.ofNat n)).toList = Nat.toDigits 10 n := Nat.toList_repr
    simp only [parseInt64?, hlist]
    split
    next cs hcs => exact absurd hcs (toDigits_ne_marked n cs)
    next cs hcs => exact absurd hcs (toDigits_ne_negative n _)
    next =>
      refine readInt64?_of_readInt? v ?_
      rw [hv]
      exact readInt?_of_readNat? (readNat?_decimal n)
  | negSucc n =>
    have hlist : (toString (Int.negSucc n)).toList = '-' :: Nat.toDigits 10 (n + 1) := by
      rw [Int.toString_eq_repr, Int.repr, String.toList_append, Nat.toList_repr]
      rfl
    simp only [parseInt64?, hlist]
    split
    next cs hcs => exact absurd hcs nofun
    next cs hcs => exact absurd (List.cons.inj hcs).2 (toDigits_ne_marked (n + 1) cs)
    next =>
      refine readInt64?_of_readInt? v ?_
      rw [hv, readInt?, readNat?_decimal]
      rfl

theorem toList_hex (n : Nat) : (hex n).toList = '0' :: 'x' :: Nat.toDigits 16 n := by
  simp [hex, hexDigits]

theorem readInt?_hexDigits (n : Nat) : readInt? 16 (Nat.toDigits 16 n) = some (n : Int) :=
  readInt?_of_readNat? (readNat?_toDigits (by decide) (by decide) n)

/-- What is written in hexadecimal is read back, where it fits a signed word. -/
theorem parseInt64?_hex {n : Nat} (h : n < 2 ^ 63) :
    parseInt64? (hex n) = some (Int64.ofNat n) := by
  simp only [parseInt64?, toList_hex]
  refine readInt64?_of_readInt? _ ?_
  rw [Int64.toInt_ofNat_of_lt h]
  exact readInt?_hexDigits n

/-- What does not fit a signed word is written in hexadecimal all the same, and not read back. -/
theorem parseInt64?_hex_of_le {n : Nat} (h : 2 ^ 63 ≤ n) : parseInt64? (hex n) = none := by
  simp only [parseInt64?, toList_hex]
  exact readInt64?_of_le (readInt?_hexDigits n) h

end FactLift.Text
