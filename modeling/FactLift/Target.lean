/-! The machine that the facts describe: the roles of its registers, and the size of its pointers. -/

namespace FactLift.Target

/-- The names that the stack pointer goes by. -/
def stackPointers : List String :=
  ["sp", "esp", "rsp", "SP", "r13"]

/-- The registers that carry the value a call returns. -/
def returnRegisters : List String :=
  ["R0", "S0", "eax", "rax", "v0"]

/-- The size of a pointer in bytes. -/
def pointerSize : Nat := 4

def isStackPointer (register : String) : Bool :=
  stackPointers.contains register

/-- Whether a register carries the value a call returns. -/
def isReturnRegister (register : String) : Bool :=
  returnRegisters.contains register

end FactLift.Target
