import FactLift.Record.Basic

/-! Opcode records: what kind of instruction stands at an address.

The first tag is the mnemonic. Each opcode asks for a number of tags and, except for `nop`, a number
of arguments; a record that has others is refused. -/

namespace FactLift

/-- The kinds of instructions. -/
inductive Opcode
  | assign | call | ret | branch | nop
deriving DecidableEq, Repr

namespace Opcode

def all : List Opcode :=
  [assign, call, ret, branch, nop]

/-- The name in records and messages. -/
def mnemonic : Opcode → String
  | assign => "assign"
  | call => "call"
  | ret => "return"
  | branch => "branch"
  | nop => "nop"

def ofMnemonic? (m : String) : Option Opcode :=
  all.find? fun o => o.mnemonic == m

/-- The number of tags: the mnemonic, and for a branch its condition code. -/
def tagCount : Opcode → Nat
  | branch => 2
  | _ => 1

/-- The number of arguments; any number is right for `nop`. -/
def argCount? : Opcode → Option Nat
  | assign => some 2
  | call => some 1
  | ret => some 0
  | branch => some 1
  | nop => none

/-- Whether a record has the shape that the opcode asks for. -/
def accepts (o : Opcode) (content : Content) : Bool :=
  content.tags.length == o.tagCount && o.argCount?.all (content.args.length == ·)

end Opcode

/-- The label of the statement at an address. -/
def addressLabel (a : UInt64) : String :=
  "L_" ++ Text.hexDigits a.toNat

/-- An opcode with its record, which has the shape that the opcode asks for. -/
structure Operation where
  opcode : Opcode
  record : Record
  accepted : opcode.accepts record.content = true

namespace Operation

def ofRecord (r : Record) : Except Error Operation :=
  match Opcode.ofMnemonic? r.kind with
  | none => .error (.unsupportedKey r.index r.kind)
  | some o =>
    if accepted : o.accepts r.content = true then .ok ⟨o, r, accepted⟩
    else
      .error (.opcodeContract o.mnemonic o.tagCount (o.argCount?.getD r.args.length)
        r.tags.length r.args.length)

/-- The address that a branch leads to, unless its argument is negative. -/
def branchTarget? (o : Operation) : Option UInt64 :=
  match o.opcode, o.record.args with
  | .branch, a :: _ => if a < 0 then none else some a.toUInt64
  | _, _ => none

end Operation

end FactLift
