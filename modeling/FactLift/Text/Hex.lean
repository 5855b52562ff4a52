/-! Hexadecimal numerals, in lower case and without padding. -/

namespace FactLift.Text

def hexDigits (n : Nat) : String :=
  String.ofList (Nat.toDigits 16 n)

/-- A number written as `0x` and its hexadecimal digits. -/
def hex (n : Nat) : String :=
  "0x" ++ hexDigits n

end FactLift.Text
