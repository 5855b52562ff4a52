import FactLift.C.Tree

/-! When two trees count as the same.

Variables are the same if they agree in name, position among the parameters and address; floating
constants are compared as numbers. All else is compared part by part. -/

namespace FactLift.C

/-- Whether two mentions are of the same variable. -/
def Symbol.same (s t : Symbol) : Bool :=
  s.name == t.name && s.parameter == t.parameter && s.address == t.address

mutual

def Ty.same : Ty → Ty → Bool
  | .void, .void => true
  | .int k, .int k' => k == k'
  | .float k, .float k' => k == k'
  | .pointer t, .pointer t' => t.same t'
  | .array t n, .array t' n' => t.same t' && sameLength n n'
  | .function r ps v, .function r' ps' v' => r.same r' && sameParams? ps ps' && v == v'
  | .named n, .named n' => n == n'
  | .composite k n, .composite k' n' => k == k' && n == n'
  | .enumeration n k, .enumeration n' k' => n == n' && k == k'
  | _, _ => false
termination_by structural x => x

def sameLength : Option Expr → Option Expr → Bool
  | none, none => true
  | some e, some e' => e.same e'
  | _, _ => false
termination_by structural x => x

/-- Whether two parameter lists are the same, or are both left out. -/
def sameParams? : Option (List Param) → Option (List Param) → Bool
  | none, none => true
  | some ps, some ps' => sameParams ps ps'
  | _, _ => false
termination_by structural x => x

def sameParams : List Param → List Param → Bool
  | [], [] => true
  | p :: ps, p' :: ps' => sameParam p p' && sameParams ps ps'
  | _, _ => false
termination_by structural x => x

def sameParam : Param → Param → Bool
  | ⟨n, t⟩, ⟨n', t'⟩ => n == n' && t.same t'
termination_by structural x => x

def Expr.same : Expr → Expr → Bool
  | .int v k, .int v' k' => v == v' && k == k'
  | .float b k, .float b' k' => Text.sameFloat b b' && k == k'
  | .globalAddress v e, .globalAddress v' e' => v == v' && e.same e'
  | .string s a, .string s' a' => s == s' && a == a'
  | .lval l, .lval l' => l.same l'
  | .sizeOf t, .sizeOf t' => t.same t'
  | .cast t e, .cast t' e' => t.same t' && e.same e'
  | .unary op e, .unary op' e' => op == op' && e.same e'
  | .binary op a b, .binary op' a' b' => op == op' && a.same a' && b.same b'
  | .conditional c a b, .conditional c' a' b' => c.same c' && a.same a' && b.same b'
  | .addressOf l, .addressOf l' => l.same l'
  | .unresolved r, .unresolved r' => r == r'
  | _, _ => false
termination_by structural x => x

def Lval.same : Lval → Lval → Bool
  | .var s o, .var s' o' => s.same s' && o.same o'
  | .mem e o, .mem e' o' => e.same e' && o.same o'
  | _, _ => false
termination_by structural x => x

def Offset.same : Offset → Offset → Bool
  | .none, .none => true
  | .field n k sub, .field n' k' sub' => n == n' && k == k' && sub.same sub'
  | .index i sub, .index i' sub' => i.same i' && sub.same sub'
  | .unresolved r, .unresolved r' => r == r'
  | _, _ => false
termination_by structural x => x

end

end FactLift.C
