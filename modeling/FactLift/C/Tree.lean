import FactLift.C.Kind
import FactLift.Text.Decimal

/-! Trees of the C-like language: types, expressions, lvalues and offsets.

An array type may have any expression for its length, and expressions mention types in casts, so the
types are mutually recursive. A mention of a variable carries its description at that moment. What
could not be resolved stands in the tree as a placeholder with its reason. -/

namespace FactLift.C

/-- Operators with one operand. -/
inductive UnOp
  | neg | bnot | lnot
deriving DecidableEq, Repr

/-- Operators with two operands. -/
inductive BinOp
  | plus | minus | mult | div | mod
  | shiftLt | shiftRt
  | band | bor | bxor
  | land | lor
  | eq | ne | lt | le | gt | ge
deriving DecidableEq, Repr

def UnOp.all : List UnOp :=
  [neg, bnot, lnot]

def UnOp.name : UnOp → String
  | neg => "neg"
  | bnot => "bnot"
  | lnot => "lnot"

def BinOp.all : List BinOp :=
  [plus, minus, mult, div, mod, shiftLt, shiftRt, band, bor, bxor, land, lor, eq, ne, lt, le, gt, ge]

def BinOp.name : BinOp → String
  | plus => "plus"
  | minus => "minus"
  | mult => "mult"
  | div => "div"
  | mod => "mod"
  | shiftLt => "shiftlt"
  | shiftRt => "shiftrt"
  | band => "band"
  | bor => "bor"
  | bxor => "bxor"
  | land => "land"
  | lor => "lor"
  | eq => "eq"
  | ne => "ne"
  | lt => "lt"
  | le => "le"
  | gt => "gt"
  | ge => "ge"

/-- The operators whose result is a truth value. -/
def BinOp.isTruth : BinOp → Bool
  | eq | ne | lt | le | gt | ge | land | lor => true
  | _ => false

mutual

/-- A type. -/
inductive Ty where
  | void
  | int (kind : IntKind)
  | float (kind : FloatKind)
  | pointer (target : Ty)
  | array (element : Ty) (length : Option Expr)
  /-- A function; without a list of parameters nothing is said about them. -/
  | function (result : Ty) (params : Option (List Param)) (variadic : Bool)
  /-- A name that a definition may stand behind. -/
  | named (name : String)
  /-- A structure or union, known by its key. -/
  | composite (key : Nat) (name : String)
  | enumeration (name : String) (kind : IntKind)

/-- A parameter of a function type. -/
structure Param where
  name : String
  type : Ty

/-- A variable of the lifted program. -/
structure Symbol where
  name : String
  type : Option Ty := none
  /-- Its position among the parameters, if it is one. -/
  parameter : Option Nat := none
  /-- Its address, if it is a global. -/
  address : Option UInt64 := none
  description : Option String := none

/-- An expression. -/
inductive Expr where
  | int (value : Int64) (kind : IntKind)
  /-- A floating-point constant, by its bits. -/
  | float (bits : UInt64) (kind : FloatKind)
  /-- An integer that is the address of a global, with the expression that names it. -/
  | globalAddress (value : Int64) (target : Expr)
  | string (text : String) (address : Option UInt64)
  | lval (l : Lval)
  | sizeOf (t : Ty)
  | cast (t : Ty) (e : Expr)
  | unary (op : UnOp) (e : Expr)
  | binary (op : BinOp) (a b : Expr)
  | conditional (c a b : Expr)
  | addressOf (l : Lval)
  /-- A value that could not be resolved. -/
  | unresolved (reason : String)

/-- An lvalue: a variable or a dereferenced address, and an offset into it. -/
inductive Lval where
  | var (s : Symbol) (offset : Offset)
  | mem (address : Expr) (offset : Offset)

/-- A chain of fields and indices. -/
inductive Offset where
  | none
  | field (name : String) (key : Nat) (sub : Offset)
  | index (i : Expr) (sub : Offset)
  /-- An offset that could not be resolved. -/
  | unresolved (reason : String)

end

instance : Inhabited Ty := ⟨.void⟩

instance : Inhabited Expr := ⟨.unresolved ""⟩

instance : Inhabited Symbol := ⟨{ name := "" }⟩

namespace Ty

/-- The type that a pointer points to. -/
def target? : Ty → Option Ty
  | .pointer t => some t
  | _ => none

/-- Whether an integer type has a sign; nothing for other types. -/
def signed? : Ty → Option Bool
  | .int k | .enumeration _ k => some k.isSigned
  | _ => none

def key? : Ty → Option Nat
  | .composite key _ => some key
  | _ => none

def element? : Ty → Option Ty
  | .array t _ => some t
  | _ => none

/-- The number of elements of an array, if it is a literal. -/
def length? : Ty → Option Int64
  | .array _ (some (.int n _)) => some n
  | _ => none

mutual

/-- The keys of the composites that a type mentions, from left to right. -/
def keys : Ty → List Nat
  | .composite key _ => [key]
  | .pointer t => t.keys
  | .array t _ => t.keys
  | .function result params _ => result.keys ++ keysOfParams? params
  | _ => []

/-- The keys that a parameter list mentions, if there is one. -/
def keysOfParams? : Option (List Param) → List Nat
  | none => []
  | some params => keysOfParams params

/-- The keys that a list of parameters mentions. -/
def keysOfParams : List Param → List Nat
  | [] => []
  | p :: rest => keysOfParam p ++ keysOfParams rest

def keysOfParam : Param → List Nat
  | ⟨_, t⟩ => t.keys

end

/-- How many array types stand around each other. -/
def depth : Ty → Nat
  | .array t _ => t.depth + 1
  | _ => 0

end Ty

namespace Offset

/-- Whether the chain is empty. -/
def isNone : Offset → Bool
  | .none => true
  | _ => false

/-- Whether the chain ends without a placeholder. -/
def isResolved : Offset → Bool
  | .none => true
  | .field _ _ sub => sub.isResolved
  | .index _ sub => sub.isResolved
  | .unresolved _ => false

/-- Puts a chain at the end of another. Nothing follows a placeholder. -/
def append : Offset → Offset → Offset
  | .none, rest => rest
  | .field name key sub, rest => .field name key (sub.append rest)
  | .index i sub, rest => .index i (sub.append rest)
  | .unresolved reason, _ => .unresolved reason

end Offset

def Lval.symbol? : Lval → Option Symbol
  | .var s _ => some s
  | .mem _ _ => none

def Lval.offset : Lval → Offset
  | .var _ offset => offset
  | .mem _ offset => offset

mutual

/-- Whether an expression has no placeholder among its operands. Indices are not looked into. -/
def Expr.isResolved : Expr → Bool
  | .unresolved _ => false
  | .int _ _ | .float _ _ | .string _ _ | .sizeOf _ => true
  | .globalAddress _ e => e.isResolved
  | .lval l | .addressOf l => l.isResolved
  | .cast _ e => e.isResolved
  | .unary _ e => e.isResolved
  | .binary _ a b => a.isResolved && b.isResolved
  | .conditional c a b => c.isResolved && a.isResolved && b.isResolved

/-- Whether an lvalue has no placeholder in its address and at the end of its offset. -/
def Lval.isResolved : Lval → Bool
  | .var _ offset => offset.isResolved
  | .mem e offset => offset.isResolved && e.isResolved

end

namespace Expr

/-- The value of an integer constant, addresses of globals included. -/
def int? : Expr → Option Int64
  | .int v _ => some v
  | .globalAddress v _ => some v
  | _ => none

/-- The lvalue that is read. -/
def lval? : Expr → Option Lval
  | .lval l => some l
  | _ => none

/-- Whether the expression itself is a placeholder. -/
def isUnresolved : Expr → Bool
  | .unresolved _ => true
  | _ => false

/-- A variable, read as a whole. -/
def ofSymbol (s : Symbol) : Expr :=
  .lval (.var s .none)

end Expr

end FactLift.C
