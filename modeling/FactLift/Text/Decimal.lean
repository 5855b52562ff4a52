/-! Decimal text of binary floating-point numbers.

A 64-bit number is written with the fewest digits that read back to it. The digits are selected in
exact arithmetic: a number `m · 2 ^ q` is what every real in an interval around it rounds to, and
the search takes the coarsest decimal grid on which a neighbour of the number lies in that interval.
Of two such neighbours the nearer wins, and the upper one if they are equally near.

Numbers from `10 ^ -4` up to `10 ^ 16` are written out, with at least one digit after the point; all
others have an exponent. -/

namespace FactLift.Text

/-- A positive number `significand · 2 ^ exponent`; `narrow` says that the next number below is only
half as far away as the next one above. -/
structure Binary where
  significand : Nat
  exponent : Int
  narrow : Bool

/-- A positive number `digits · 10 ^ exponent`. -/
structure Decimal where
  digits : Nat
  exponent : Int

/-- Numerator and denominator of `m · 2 ^ q`, counted in units of `10 ^ unit`. -/
def Binary.ratio (m : Nat) (q unit : Int) : Nat × Nat :=
  (m * Nat.pow 2 q.toNat * Nat.pow 10 (-unit).toNat,
    Nat.pow 2 (-q).toNat * Nat.pow 10 unit.toNat)

/-- Whether `digits · 10 ^ unit` rounds to the number. The ends of the interval round to it exactly
if its significand is even. -/
def Binary.readsBack (x : Binary) (digits : Nat) (unit : Int) : Bool :=
  let (lowNum, lowDen) :=
    ratio (4 * x.significand - (if x.narrow then 1 else 2)) (x.exponent - 2) unit
  let (highNum, highDen) := ratio (4 * x.significand + 2) (x.exponent - 2) unit
  if x.significand % 2 = 0 then lowNum ≤ digits * lowDen && digits * highDen ≤ highNum
  else lowNum < digits * lowDen && digits * highDen < highNum

/-- The decimal exponent of the leading digit. -/
def Binary.leading (x : Binary) : Int :=
  let (num, den) := ratio x.significand x.exponent 0
  let estimate : Int := (Nat.toDigits 10 num).length - (Nat.toDigits 10 den).length
  let (num, den) := ratio x.significand x.exponent estimate
  if den ≤ num then estimate else estimate - 1

/-- The better of the number's two neighbours on the grid of `10 ^ unit`, if one reads back. -/
def Binary.onGrid? (x : Binary) (unit : Int) : Option Decimal :=
  let (num, den) := ratio x.significand x.exponent unit
  let below := num / den
  match x.readsBack below unit, x.readsBack (below + 1) unit with
  | true, true =>
    if 2 * (num - below * den) < den then some ⟨below, unit⟩ else some ⟨below + 1, unit⟩
  | true, false => some ⟨below, unit⟩
  | false, true => some ⟨below + 1, unit⟩
  | false, false => none

/-- Drops trailing zeros, at most `limit` of them. -/
def Decimal.strip : Nat → Decimal → Decimal
  | 0, d => d
  | limit + 1, d =>
    if d.digits ≠ 0 ∧ d.digits % 10 = 0 then strip limit ⟨d.digits / 10, d.exponent + 1⟩ else d

/-- The fewest digits that read back. Seventeen always suffice. -/
def Binary.shortest (x : Binary) : Decimal :=
  let lead := x.leading
  let found := (List.range 17).findSome? fun n : Nat => x.onGrid? (lead - n)
  (found.getD ⟨x.significand * 10, x.exponent⟩).strip 17

/-- The parts of a 64-bit floating-point number. -/
inductive Float64
  | nan
  | infinite (negative : Bool)
  | zero (negative : Bool)
  | finite (negative : Bool) (magnitude : Binary)

/-- Takes the bit pattern apart: sign, biased exponent, fraction. -/
def Float64.ofBits (bits : UInt64) : Float64 :=
  let negative := (bits >>> 63) = 1
  let biased := ((bits >>> 52) &&& 2047).toNat
  let fraction := (bits &&& 4503599627370495).toNat
  if biased = 2047 then if fraction = 0 then .infinite negative else .nan
  else if biased = 0 then
    if fraction = 0 then .zero negative else .finite negative ⟨fraction, -1074, false⟩
  else
    .finite negative ⟨4503599627370496 + fraction, (biased : Int) - 1075, fraction = 0 ∧ 1 < biased⟩

/-- Lays out a decimal, in full or with an exponent. -/
def Decimal.text (d : Decimal) : String :=
  let digits := Nat.toDigits 10 d.digits
  let lead := d.exponent + digits.length - 1
  if -4 ≤ lead ∧ lead < 16 then
    if lead < 0 then
      "0." ++ String.ofList (List.replicate (-lead - 1).toNat '0' ++ digits)
    else if d.exponent < 0 then
      let whole := (lead + 1).toNat
      String.ofList (digits.take whole ++ '.' :: digits.drop whole)
    else
      String.ofList (digits ++ List.replicate d.exponent.toNat '0') ++ ".0"
  else
    let fraction := digits.drop 1
    String.ofList (digits.take 1 ++ (if fraction.isEmpty then [] else '.' :: fraction)) ++ "e" ++
      toString lead

/-- The text of a floating-point number, given by its bits. -/
def floatText (bits : UInt64) : String :=
  let signed (negative : Bool) (s : String) := if negative then "-" ++ s else s
  match Float64.ofBits bits with
  | .nan => "NaN"
  | .infinite negative => signed negative "inf"
  | .zero negative => signed negative "0.0"
  | .finite negative magnitude => signed negative magnitude.shortest.text

/-- Equality of floating-point numbers, given by their bits: no NaN equals anything, and the two
zeros are equal. -/
def sameFloat (a b : UInt64) : Bool :=
  match Float64.ofBits a, Float64.ofBits b with
  | .nan, _ | _, .nan => false
  | .zero _, .zero _ => true
  | _, _ => a == b

end FactLift.Text
