import FactLift.Sym.Op
import FactLift.Target
import FactLift.Text.Hex
import FactLift.Word

/-! Symbolic values: variables, what they denote, and expressions over them.

A variable stands for a location (a register, a flag, a piece of memory) or for a value fixed at one
point of the program. Memory is reached from a base by a chain of offsets, and both may mention
further variables and expressions, so the types are mutually recursive. -/

namespace FactLift.Sym

/-- A constant. Global addresses are told apart from plain integers. -/
inductive Constant
  | int (value : Int64) (width : Width)
  | address (a : UInt64)
deriving DecidableEq, Repr

namespace Constant

/-- The 32-bit constant with the low half of `v`. -/
def ofInt64 (v : Int64) : Constant :=
  .int (Width.w32.normalize v) .w32

/-- The value as a signed word. -/
def value : Constant → Int64
  | .int v _ => v
  | .address a => a.toInt64

/-- The width. An address counts as a 32-bit constant. -/
def width : Constant → Width
  | .int _ w => w
  | .address _ => .w32

def text : Constant → String
  | .int v _ => toString v.toInt
  | .address a => Text.hex a.toNat

end Constant

mutual

/-- A symbolic expression. -/
inductive Expr where
  | const (c : Constant)
  | var (v : Variable)
  | apply (op : Op) (args : List Expr)

/-- A variable. Temporaries of the facts have the number `-1` and denote nothing further. -/
structure Variable where
  name : String
  number : Int64
  meaning : Meaning

/-- What a variable denotes. -/
inductive Meaning where
  | absent
  | register (name : String)
  | flag (name : String)
  | memory (base : Base) (size : Nat) (offset : Offset)
  | fixed (value : FixedValue)

/-- Where a piece of memory is counted from. -/
inductive Base where
  | localFrame
  | allocatedFrame
  | realignedFrame
  | globals
  /-- The value of a variable. -/
  | pointer (v : Variable)
  | unknown (description : String)

/-- A chain of offsets from a base. -/
inductive Offset where
  | none
  | const (value : Int64) (sub : Offset)
  | field (name : String) (key : Nat) (sub : Offset)
  | index (i : Expr) (sub : Offset)
  | indexVar (v : Variable) (elementSize : Nat) (sub : Offset)
  | unknown

/-- A value fixed at one point of the program. -/
inductive FixedValue where
  /-- What a register holds when the function is entered. -/
  | initialRegister (register : String) (level : Int64)
  /-- What a memory location holds when the function is entered. -/
  | initialMemory (v : Variable)
  /-- What the call at a site returns. -/
  | returnValue (callSite : UInt64) (callee : Option String)
  /-- A named expression. -/
  | symbolic (name : String) (x : Expr)

end

deriving instance BEq for Expr
deriving instance BEq for Variable
deriving instance BEq for Offset

instance : Inhabited Expr := ⟨.const (.int 0 .w32)⟩

instance : Inhabited Variable := ⟨⟨"", 0, .absent⟩⟩

namespace Offset

/-- The total in bytes of a chain that has constants only. -/
def constant? : Offset → Option Int64
  | .none => some 0
  | .const v sub => sub.constant?.map (v + ·)
  | _ => Option.none

/-- Whether the chain is empty. -/
def isNone : Offset → Bool
  | .none => true
  | _ => false

end Offset

namespace Variable

/-- Whether the variable is a temporary of the facts. -/
def isTemporary (v : Variable) : Bool :=
  v.number == -1

/-- The register that the variable denotes. -/
def register? (v : Variable) : Option String :=
  match v.meaning with
  | .register r => some r
  | _ => none

/-- The value fixed at a program point that the variable denotes. -/
def fixed? (v : Variable) : Option FixedValue :=
  match v.meaning with
  | .fixed value => some value
  | _ => none

/-- The memory that the variable denotes: base, size in bytes and offset. -/
def memory? (v : Variable) : Option (Base × Nat × Offset) :=
  match v.meaning with
  | .memory base size offset => some (base, size, offset)
  | _ => none

/-- The register whose value at entry the variable is. -/
def initialRegister? (v : Variable) : Option String :=
  match v.meaning with
  | .fixed (.initialRegister r _) => some r
  | _ => none

/-- Whether the variable is the stack pointer at entry. -/
def isStackBase (v : Variable) : Bool :=
  v.initialRegister?.any Target.isStackPointer

/-- The frame offset of a local stack variable at a constant offset. -/
def stackOffset? (v : Variable) : Option Int64 :=
  match v.meaning with
  | .memory .localFrame _ offset => offset.constant?
  | _ => none

/-- The address of a global variable at a constant offset. -/
def globalAddress? (v : Variable) : Option UInt64 :=
  match v.meaning with
  | .memory .globals _ offset => offset.constant?.map Int64.toUInt64
  | _ => none

end Variable

namespace Expr

/-- The 32-bit constant with the low half of `v`. -/
def ofInt64 (v : Int64) : Expr :=
  .const (.ofInt64 v)

def binary (op : Op) (a b : Expr) : Expr :=
  .apply op [a, b]

def var? : Expr → Option Variable
  | .var v => some v
  | _ => none

/-- The value of a constant. -/
def int? : Expr → Option Int64
  | .const c => some c.value
  | _ => none

def isConst : Expr → Bool
  | .const _ => true
  | _ => false

mutual

/-- The variables that occur, from left to right. -/
def vars : Expr → List Variable
  | .const _ => []
  | .var v => [v]
  | .apply _ args => varsOf args

/-- The variables that occur in a list of expressions, from left to right. -/
def varsOf : List Expr → List Variable
  | [] => []
  | a :: rest => a.vars ++ varsOf rest

end

mutual

/-- The summands of a nested addition. -/
def terms : Expr → List Expr
  | .apply .plus args => termsOf args
  | x => [x]

def termsOf : List Expr → List Expr
  | [] => []
  | a :: rest => a.terms ++ termsOf rest

end

mutual

def text : Expr → String
  | .const c => c.text
  | .var v => v.name
  | .apply op args =>
    match textsOf args with
    | [a] => op.symbol ++ "(" ++ a ++ ")"
    | [a, b] => "(" ++ a ++ " " ++ op.symbol ++ " " ++ b ++ ")"
    | texts => op.name ++ "(" ++ ", ".intercalate texts ++ ")"

def textsOf : List Expr → List String
  | [] => []
  | a :: rest => a.text :: textsOf rest

end

/-- The frame offset of an address that is the stack pointer at entry, alone or moved by a
constant. -/
def stackOffset? : Expr → Option Int64
  | .var v => if v.isStackBase then some 0 else none
  | .apply .plus [.var v, .const c] => if v.isStackBase then some c.value else none
  | .apply .minus [.var v, .const c] => if v.isStackBase then some (-c.value) else none
  | _ => none

end Expr

end FactLift.Sym
