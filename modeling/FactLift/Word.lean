/-! Machine words.

Arithmetic over the facts is two's complement, at 32 or 64 bits. Values of either width are kept in
signed 64-bit words; a 32-bit value is *normal* when it is the sign extension of its low half. -/

namespace FactLift

/-- The width of a constant, or of the arithmetic over it. -/
inductive Width
  | w32
  | w64
deriving DecidableEq, Repr

namespace Width

def bits : Width → Nat
  | w32 => 32
  | w64 => 64

/-- The number of different words of the width. -/
def modulus (w : Width) : Nat :=
  Nat.pow 2 w.bits

/-- The wider of two widths. -/
def join : Width → Width → Width
  | w64, _ => w64
  | w32, w => w

/-- Cuts a word to the width and sign-extends it back. -/
def normalize : Width → Int64 → Int64
  | w32, v => v.toInt32.toInt64
  | w64, v => v

end Width

/-- Extends the low `bits` of a word over the whole of it, with their sign or with zeros. A width of
zero, or one that leaves nothing to extend, keeps the word. -/
def widen (v : Int64) (bits : Nat) (signed : Bool) : Int64 :=
  if bits = 0 ∨ 64 ≤ bits then v
  else
    let shift := 64 - bits
    if signed then (v <<< Int64.ofNat shift) >>> Int64.ofNat shift
    else ((v.toUInt64 <<< UInt64.ofNat shift) >>> UInt64.ofNat shift).toInt64

/-- Whether a quotient is no word: that of the least word and minus one. -/
def overflows (v divisor : Int64) : Bool :=
  v == Int64.minValue && divisor == -1

end FactLift
