import FactLift.Log
import FactLift.Text.Hex

/-! Diagnostics: places where lifting fell back to a placeholder, or where bookkeeping replaced what
was recorded before. They never stop a lift. -/

namespace FactLift

/-- What a diagnostic is about. -/
inductive DiagnosticKind
  /-- A value that could not be turned into an expression or an lvalue. -/
  | unresolvedValue
  /-- An offset that could not be followed through the types at hand. -/
  | unsupportedOffset
  /-- More than one variable could stand for a value. -/
  | ambiguousSsa
  /-- A low-level node that was mapped a second time. -/
  | provenanceOverwrite
  /-- A fact record with error-valued results. -/
  | errorValuedRecord
deriving DecidableEq, Repr

namespace DiagnosticKind

def all : List DiagnosticKind :=
  [unresolvedValue, unsupportedOffset, ambiguousSsa, provenanceOverwrite, errorValuedRecord]

def name : DiagnosticKind → String
  | unresolvedValue => "unresolved-value"
  | unsupportedOffset => "unsupported-offset"
  | ambiguousSsa => "ambiguous-ssa"
  | provenanceOverwrite => "provenance-overwrite"
  | errorValuedRecord => "error-valued-record"

def ofName? (name : String) : Option DiagnosticKind :=
  all.find? fun kind => kind.name == name

end DiagnosticKind

/-- A diagnostic, at the address of the instruction being lifted if there is one. -/
structure Diagnostic where
  site : Option UInt64
  kind : DiagnosticKind
  message : String
deriving DecidableEq, Repr

namespace Diagnostic

def text (d : Diagnostic) : String :=
  match d.site with
  | some site => Text.hex site.toNat ++ ": " ++ d.kind.name ++ ": " ++ d.message
  | none => d.kind.name ++ ": " ++ d.message

def logRecord (d : Diagnostic) : LogRecord where
  level := .warning
  message := "Lifting diagnostic"
  details :=
    [("kind", d.kind.name)] ++ (d.site.map fun site => ("site", Text.hex site.toNat)).toList ++
      [("message", d.message)]

end Diagnostic

end FactLift
