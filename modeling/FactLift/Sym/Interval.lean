/-! Intervals of integers, open towards either side where a bound is missing. -/

namespace FactLift.Sym

/-- An interval; a missing bound leaves its side open. -/
structure Interval where
  low : Option Int64
  high : Option Int64
deriving DecidableEq, Repr

namespace Interval

/-- Whether both bounds are given and equal. -/
def isSingleton (i : Interval) : Bool :=
  i.low.isSome && i.low == i.high

/-- Whether both bounds are given. -/
def isClosed (i : Interval) : Bool :=
  i.low.isSome && i.high.isSome

/-- Whether a value lies between the bounds. -/
def contains (i : Interval) (v : Int64) : Bool :=
  i.low.all (fun low => decide (low ≤ v)) && i.high.all (fun high => decide (v ≤ high))

def lowText (bound : Option Int64) : String :=
  (bound.map fun v => toString v.toInt).getD "-oo"

def highText (bound : Option Int64) : String :=
  (bound.map fun v => toString v.toInt).getD "oo"

def text (i : Interval) : String :=
  "[" ++ lowText i.low ++ ";" ++ highText i.high ++ "]"

end Interval

end FactLift.Sym
