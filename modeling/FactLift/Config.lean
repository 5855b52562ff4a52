/-! Switches that change how values are lifted.

Everything is on by default except the printing of decoded records; a flag of the command line turns
one switch over. -/

namespace FactLift

/-- The switches of a lift. -/
structure Config where
  /-- Write pointer-plus-constant as the address of a field where there is one. -/
  recoverFields : Bool := true
  /-- Count pointer arithmetic in elements where it divides evenly. -/
  scalePointers : Bool := true
  /-- Give every definition of a register a variable of its own. -/
  introduceSsa : Bool := true
  /-- Keep the constants that such variables are known to hold. -/
  recordConstants : Bool := true
  /-- Read a register through the variable of its only definition. -/
  resolveUses : Bool := true
  /-- Take the committed form of an expression where there is one. -/
  preferCommitted : Bool := true
  /-- Log every decoded record. -/
  logDecoded : Bool := false
deriving DecidableEq, Repr

/-- The flags that turn a switch over. -/
inductive ConfigFlag
  | disableFieldRecovery
  | disablePointerScaling
  | disableSsaIntroduction
  | disableConstantRecording
  | disableUseResolution
  | disableCommitted
  | enableDecodedLog
deriving DecidableEq, Repr

namespace ConfigFlag

def all : List ConfigFlag :=
  [disableFieldRecovery, disablePointerScaling, disableSsaIntroduction, disableConstantRecording,
    disableUseResolution, disableCommitted, enableDecodedLog]

/-- The name on the command line. -/
def name : ConfigFlag → String
  | disableFieldRecovery => "disable-struct-field-recovery"
  | disablePointerScaling => "disable-pointer-arithmetic-scaling"
  | disableSsaIntroduction => "disable-ssa-register-introduction"
  | disableConstantRecording => "disable-ssa-constant-recording"
  | disableUseResolution => "disable-reaching-def-register-resolution"
  | disableCommitted => "disable-committed-expressions"
  | enableDecodedLog => "enable-debug-print-decoded-x-data"

def ofName? (name : String) : Option ConfigFlag :=
  all.find? fun flag => flag.name == name

/-- Turns over the switch of a flag. -/
def apply (flag : ConfigFlag) (c : Config) : Config :=
  match flag with
  | disableFieldRecovery => { c with recoverFields := false }
  | disablePointerScaling => { c with scalePointers := false }
  | disableSsaIntroduction => { c with introduceSsa := false }
  | disableConstantRecording => { c with recordConstants := false }
  | disableUseResolution => { c with resolveUses := false }
  | disableCommitted => { c with preferCommitted := false }
  | enableDecodedLog => { c with logDecoded := true }

end ConfigFlag

/-- The switches under a list of flags. -/
def Config.ofFlags (flags : List ConfigFlag) : Config :=
  flags.foldl (fun c flag => flag.apply c) {}

end FactLift
