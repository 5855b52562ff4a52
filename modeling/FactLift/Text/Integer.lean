/-! Reading integers.

A numeral is an optional sign and at least one digit, nothing else: no blanks and no separators.
Numbers are read exactly and then have to fit the word they are meant for. An integer of the facts
is decimal, or hexadecimal after `0x` or `-0x`; the sign of the digits themselves comes after the
mark, so `0x-10` is sixteen below zero. -/

namespace FactLift.Text

/-- The value of a digit in a base up to 36. -/
def digitValue? (base : Nat) (c : Char) : Option Nat :=
  let value? :=
    if '0' ≤ c ∧ c ≤ '9' then some (c.toNat - '0'.toNat)
    else if 'a' ≤ c ∧ c ≤ 'z' then some (c.toNat - 'a'.toNat + 10)
    else if 'A' ≤ c ∧ c ≤ 'Z' then some (c.toNat - 'A'.toNat + 10)
    else none
  value?.filter (· < base)

/-- The number that digits stand for, after the digits read so far. -/
def readDigits (base : Nat) : Nat → List Char → Option Nat
  | value, [] => some value
  | value, c :: cs => do readDigits base (value * base + (← digitValue? base c)) cs

/-- A numeral without a sign: at least one digit, and digits only. -/
def readNat? (base : Nat) : List Char → Option Nat
  | [] => none
  | cs => readDigits base 0 cs

/-- A numeral with an optional sign. -/
def readInt? (base : Nat) : List Char → Option Int
  | '-' :: cs => (readNat? base cs).map fun n => -(n : Int)
  | '+' :: cs => (readNat? base cs).map fun n => (n : Int)
  | cs => (readNat? base cs).map fun n => (n : Int)

/-- A signed 64-bit numeral; out of range is no numeral. -/
def readInt64? (base : Nat) (cs : List Char) : Option Int64 :=
  ((readInt? base cs).filter fun n => Int64.minValue.toInt ≤ n && n ≤ Int64.maxValue.toInt).map
    Int64.ofInt

/-- An unsigned 64-bit numeral, with an optional plus sign; out of range is no numeral. -/
def readUInt64? (base : Nat) (cs : List Char) : Option UInt64 :=
  let digits := match cs with
    | '+' :: rest => rest
    | _ => cs
  ((readNat? base digits).filter (· < UInt64.size)).map UInt64.ofNat

/-- An integer of the facts: decimal, or hexadecimal after `0x` or `-0x`. -/
def parseInt64? (s : String) : Option Int64 :=
  match s.toList with
  | '0' :: 'x' :: digits => readInt64? 16 digits
  | '-' :: '0' :: 'x' :: digits => (readInt64? 16 digits).map (- ·)
  | cs => readInt64? 10 cs

/-- An address written as `0x` and hexadecimal digits. -/
def parseAddress? (s : String) : Option UInt64 :=
  match s.toList with
  | '0' :: 'x' :: digits => readUInt64? 16 digits
  | _ => none

end FactLift.Text
