import FactLift.Proofs.Lift.Attempts

/-! The variables that a tree mentions.

`symbols` lists them from left to right, indices included. The types that a tree mentions are not
part of it. Operators and pointer arithmetic mention what their operands do. -/

namespace FactLift

open C

namespace C

mutual

/-- The variables of an expression, from left to right. -/
def Expr.symbols : Expr → List Symbol
  | .int _ _ | .float _ _ | .string _ _ | .sizeOf _ | .unresolved _ => []
  | .globalAddress _ e => e.symbols
  | .lval l | .addressOf l => l.symbols
  | .cast _ e => e.symbols
  | .unary _ e => e.symbols
  | .binary _ a b => a.symbols ++ b.symbols
  | .conditional c a b => c.symbols ++ a.symbols ++ b.symbols

/-- The variables of an lvalue: those of its host, then those of its offset. -/
def Lval.symbols : Lval → List Symbol
  | .var s offset => s :: offset.symbols
  | .mem e offset => e.symbols ++ offset.symbols

def Offset.symbols : Offset → List Symbol
  | .none | .unresolved _ => []
  | .field _ _ sub => sub.symbols
  | .index i sub => i.symbols ++ sub.symbols

end

@[simp] theorem symbols_ofSymbol (s : Symbol) : (Expr.ofSymbol s).symbols = [s] := by
  simp [Expr.ofSymbol, Expr.symbols, Lval.symbols, Offset.symbols]

end C

/-- Moving by a constant mentions what is moved. -/
theorem symbols_moveBy (cfg : Config) (g : Globals) (op : BinOp) (p : Expr) (c : Int64) :
    (moveBy cfg g op p c).symbols = p.symbols := by
  have h := moveBy_form cfg g op p c
  generalize moveBy cfg g op p c = e at h ⊢
  cases h <;> simp only [Expr.symbols, Lval.symbols, Offset.symbols, List.append_nil]

/-- An operator mentions what its operands mention. -/
theorem symbols_combine? {op : Sym.Op} {args : List Expr} {e : Expr} (h : combine? op args = some e) :
    e.symbols = args.flatMap Expr.symbols := by
  unfold combine? at h
  split at h
  · obtain ⟨o, -, rfl⟩ := Option.map_eq_some_iff.mp h
    simp [Expr.symbols]
  · obtain ⟨o, -, rfl⟩ := Option.map_eq_some_iff.mp h
    simp [Expr.symbols]
  · cases h

end FactLift
