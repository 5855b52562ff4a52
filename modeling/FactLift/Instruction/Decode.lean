import FactLift.C.Tree
import FactLift.Config
import FactLift.Dataflow
import FactLift.Instruction.Fact
import FactLift.Instruction.Tags
import FactLift.Log

/-! Decoding the fact record of an instruction.

Each letter of the key consumes one argument, in order:

| letter | field                                     | `-2` marks an error       |
|--------|-------------------------------------------|---------------------------|
| `v`    | variables (result variables in `ar:`)     | in the `ar:` form         |
| `w`    | committed variables                       | yes                       |
| `x`    | expressions (result expressions in `ar:`) | in the `ar:` form         |
| `c`    | committed expressions                     | yes                       |
| `a`    | expressions                               | no                        |
| `s`    | strings                                   | no                        |
| `i`    | intervals                                 | no                        |
| `l`    | integers as they are                      |                           |
| `t`    | types                                     | no                        |
| `r`    | reaching definitions                      | negative is missing       |
| `d`    | uses                                      | negative is missing       |
| `h`    | high-level uses                           | negative, zero is missing |
| `f`    | reaching definitions of flags             | negative is missing       |

After them come two arguments for a base update, one for a returned value and one for the name of
the function called, as far as the tags ask for them. Committed values, if there are any, must be
as many as the results. -/

namespace FactLift

open FactLift.Sym

/-- What a record is decoded against. -/
structure DecodeContext where
  dictionary : Dictionary
  strings : List String
  types : List C.Ty
  /-- The dataflow facts, if the program comes with any. -/
  flows : Option FlowStore

namespace DecodeContext

/-- The string at an index, counted from one. -/
def string (cx : DecodeContext) (index : Nat) : Except Error String :=
  match index with
  | 0 => .error (.indexOutOfRange "strings" 0)
  | n + 1 =>
    match cx.strings[n]? with
    | some s => .ok s
    | none => .error (.indexOutOfRange "strings" index)

/-- The type at an index, counted from one. -/
def type (cx : DecodeContext) (index : Nat) : Except Error C.Ty :=
  match index with
  | 0 => .error (.indexOutOfRange "types" 0)
  | n + 1 =>
    match cx.types[n]? with
    | some t => .ok t
    | none => .error (.indexOutOfRange "types" index)

end DecodeContext

/-- A base register that is changed by an access, and its new value. -/
structure BaseUpdate where
  var : Fact Variable
  value : Fact Expr

/-- The fields of a decoded record. -/
structure Decoded where
  vars : List Variable := []
  varsResult : List (Fact Variable) := []
  committedVars : List (Fact Variable) := []
  exprs : List Expr := []
  exprsResult : List (Fact Expr) := []
  committedExprs : List (Fact Expr) := []
  intervals : List Interval := []
  strings : List String := []
  ints : List Int64 := []
  types : List C.Ty := []
  reachingDefs : List (Fact Flow) := []
  defUses : List (Fact Flow) := []
  defUsesHigh : List (Fact Flow) := []
  flagReachingDefs : List (Fact Flow) := []
  baseUpdate : Option BaseUpdate := none
  returnValue : Option (Fact Expr) := none
  callTarget : Option String := none

namespace Decoded

/-- Whether every result and every committed expression has a value. -/
def isOk (d : Decoded) : Bool :=
  d.varsResult.all Fact.isPresent && d.exprsResult.all Fact.isPresent &&
    d.committedExprs.all Fact.isPresent

/-- The positions without a value among the result variables, the result expressions and the
committed expressions. -/
def gaps (d : Decoded) : List Nat × List Nat × List Nat :=
  (Fact.gaps d.varsResult, Fact.gaps d.exprsResult, Fact.gaps d.committedExprs)

def varResult? (d : Decoded) (n : Nat) : Option Variable :=
  d.varsResult[n]?.bind Fact.value?

def exprResult? (d : Decoded) (n : Nat) : Option Expr :=
  d.exprsResult[n]?.bind Fact.value?

/-- An expression in its best form: committed if that is wanted, else result, else plain. -/
def preferred? (cfg : Config) (d : Decoded) (n : Nat) : Option Expr :=
  let committed := if cfg.preferCommitted then d.committedExprs[n]?.bind Fact.value? else none
  (committed.or (d.exprResult? n)).or d.exprs[n]?

/-- The variable that the instruction defines. -/
def target? (d : Decoded) : Option Variable :=
  (d.varResult? 0).or d.vars.head?

/-- The lines of a field in the text of a decoded record. -/
def fieldText {α : Type} (name : String) (valueText : α → String) (values : List α) : String :=
  String.join (values.zipIdx.map fun (v, n) => s!"{name}[{n}] = {valueText v}\n")

def text (d : Decoded) : String :=
  fieldText "vars" Variable.name d.vars ++
    fieldText "vars_r" (Fact.text Variable.name) d.varsResult ++
    fieldText "xprs" Expr.text d.exprs ++
    fieldText "xprs_r" (Fact.text Expr.text) d.exprsResult ++
    fieldText "cxprs" (Fact.text Expr.text) d.committedExprs ++
    fieldText "rdefs" (Fact.text Flow.text) d.reachingDefs

end Decoded

/-- What the argument under a letter is decoded to. -/
inductive Entry
  | var (v : Variable)
  | varResult (v : Fact Variable)
  | committedVar (v : Fact Variable)
  | expr (x : Expr)
  | exprResult (x : Fact Expr)
  | committedExpr (x : Fact Expr)
  | interval (i : Interval)
  | string (s : String)
  | int (n : Int64)
  | type (t : C.Ty)
  | flow (kind : FlowKind) (f : Fact Flow)

/-- The argument that marks a value as not available. -/
def errorMark : Int64 := -2

/-- An argument that has to refer to a value. -/
def required {α : Type} (index position : Nat) (letter : Char) (raw : Int64)
    (get : Nat → Except Error α) : Except Error α :=
  if raw = errorMark then .error (.unexpectedErrorValue index position letter)
  else if raw < 0 then .error (.invalidArgument index position raw)
  else get raw.toInt.toNat

/-- An argument that refers to a value or marks it as not available. -/
def optional {α : Type} (index position : Nat) (raw : Int64)
    (get : Nat → Except Error α) : Except Error (Fact α) :=
  if raw = errorMark then .ok .failed
  else if raw < 0 then .error (.invalidArgument index position raw)
  else do return .present (← get raw.toInt.toNat)

/-- An argument that refers to an entry of a table without error marks. -/
def indexed {α : Type} (index position : Nat) (raw : Int64)
    (get : Nat → Except Error α) : Except Error α :=
  if raw < 0 then .error (.invalidArgument index position raw) else get raw.toInt.toNat

/-- Whether an argument asks for a dataflow fact. -/
def requestsFlow (kind : FlowKind) (raw : Int64) : Bool :=
  if kind = .defUseHigh then decide (0 < raw) else decide (0 ≤ raw)

/-- The dataflow fact that an argument asks for, if the store has one of that kind. -/
def flowFact (cx : DecodeContext) (kind : FlowKind) (raw : Int64) : Fact Flow :=
  if requestsFlow kind raw then
    match cx.flows.bind fun store => store.get? raw.toInt.toNat with
    | some f => if f.kind = kind then .present f else .missing
    | none => .missing
  else .missing

/-- Decodes the argument under a letter. -/
def decodeLetter (cx : DecodeContext) (r : Record) (form : KeyForm) (position : Nat)
    (letter : Char) (raw : Int64) : Except Error Entry :=
  let dict := cx.dictionary
  match letter, form with
  | 'v', .result => do return .varResult (← optional r.index position raw dict.decodeVariable)
  | 'v', .plain => do return .var (← required r.index position letter raw dict.decodeVariable)
  | 'w', _ => do return .committedVar (← optional r.index position raw dict.decodeVariable)
  | 'x', .result => do return .exprResult (← optional r.index position raw dict.decodeExpr)
  | 'x', .plain | 'a', _ => do
    return .expr (← required r.index position letter raw dict.decodeExpr)
  | 'c', _ => do return .committedExpr (← optional r.index position raw dict.decodeExpr)
  | 's', _ => do return .string (← indexed r.index position raw cx.string)
  | 'i', _ => do return .interval (← indexed r.index position raw dict.decodeInterval)
  | 'l', _ => .ok (.int raw)
  | 't', _ => do return .type (← indexed r.index position raw cx.type)
  | _, _ =>
    match FlowKind.ofLetter? letter with
    | some kind => .ok (.flow kind (flowFact cx kind raw))
    | none => .error (.unknownKeyLetter r.index r.key letter)

/-- The flows of one kind among decoded arguments. -/
def flowsOf (kind : FlowKind) (entries : List Entry) : List (Fact Flow) :=
  entries.filterMap fun
    | .flow k f => if k = kind then some f else none
    | _ => none

/-- Sorts decoded arguments into the fields they belong to. -/
def Decoded.ofEntries (entries : List Entry) : Decoded where
  vars := entries.filterMap fun | .var v => some v | _ => none
  varsResult := entries.filterMap fun | .varResult v => some v | _ => none
  committedVars := entries.filterMap fun | .committedVar v => some v | _ => none
  exprs := entries.filterMap fun | .expr x => some x | _ => none
  exprsResult := entries.filterMap fun | .exprResult x => some x | _ => none
  committedExprs := entries.filterMap fun | .committedExpr x => some x | _ => none
  intervals := entries.filterMap fun | .interval i => some i | _ => none
  strings := entries.filterMap fun | .string s => some s | _ => none
  ints := entries.filterMap fun | .int n => some n | _ => none
  types := entries.filterMap fun | .type t => some t | _ => none
  reachingDefs := flowsOf .reachingDef entries
  defUses := flowsOf .defUse entries
  defUsesHigh := flowsOf .defUseHigh entries
  flagReachingDefs := flowsOf .flagReachingDef entries

/-- The arguments that come after those of the letters. -/
structure Trailing where
  baseUpdate : Option BaseUpdate
  returnValue : Option (Fact Expr)
  callTarget : Option String

/-- How many arguments come after those of the letters. -/
def Record.trailingCount (r : Record) : Nat :=
  (if r.hasBaseUpdate then 2 else 0) + (if r.hasReturnValue then 1 else 0) +
    (if r.hasCallTarget then 1 else 0)

/-- Decodes the base update, whose arguments start at a position. -/
def decodeBaseUpdate (cx : DecodeContext) (r : Record) (position : Nat) :
    Except Error (Option BaseUpdate) :=
  if r.hasBaseUpdate then do
    let var ← optional r.index position (r.args.getD position 0) cx.dictionary.decodeVariable
    let value ←
      optional r.index (position + 1) (r.args.getD (position + 1) 0) cx.dictionary.decodeExpr
    return some ⟨var, value⟩
  else .ok none

/-- Decodes the returned value, whose argument is at a position. -/
def decodeReturnValue (cx : DecodeContext) (r : Record) (position : Nat) :
    Except Error (Option (Fact Expr)) :=
  if r.hasReturnValue then do
    return some (← optional r.index position (r.args.getD position 0) cx.dictionary.decodeExpr)
  else .ok none

/-- Decodes the name of the function called, whose argument is at a position. -/
def decodeCallTarget (cx : DecodeContext) (r : Record) (position : Nat) :
    Except Error (Option String) :=
  if r.hasCallTarget then do
    return some (← indexed r.index position (r.args.getD position 0) cx.string)
  else .ok none

/-- Decodes the arguments from a position on. -/
def decodeTrailing (cx : DecodeContext) (r : Record) (position : Nat) :
    Except Error Trailing := do
  let baseUpdate ← decodeBaseUpdate cx r position
  let position := position + (if r.hasBaseUpdate then 2 else 0)
  let returnValue ← decodeReturnValue cx r position
  let position := position + (if r.hasReturnValue then 1 else 0)
  let callTarget ← decodeCallTarget cx r position
  return ⟨baseUpdate, returnValue, callTarget⟩

/-- Asks for as many committed values as results, if there are any. -/
def checkCommitted (index : Nat) (family : ResultFamily) (committed results : Nat) :
    Except Error Unit :=
  if committed = 0 ∨ committed = results then .ok ()
  else .error (.committedCountMismatch index family committed results)

/-- Decodes the arguments under letters, together with their positions. -/
def decodeLetters (cx : DecodeContext) (r : Record) (form : KeyForm) :
    Nat → List Char → List Int64 → Except Error (List Entry)
  | position, letter :: letters, raw :: args => do
    let entry ← decodeLetter cx r form position letter raw
    return entry :: (← decodeLetters cx r form (position + 1) letters args)
  | _, _, _ => .ok []

/-- The keys without letters and without arguments to decode. -/
def Record.isBare (r : Record) : Bool :=
  r.key == "" || r.key == "nop" || r.key == "subsumes"

/-- Decodes a record. -/
def decodeRecord (cx : DecodeContext) (r : Record) : Except Error Decoded :=
  match r.letters? with
  | none => if r.isBare then .ok {} else .error (.unsupportedKey r.index r.key)
  | some (form, letters) => do
    let expected := letters.length + r.trailingCount
    if r.args.length ≠ expected then
      throw (.argumentCountMismatch r.index r.key expected r.args.length)
    let d := Decoded.ofEntries (← decodeLetters cx r form 0 letters r.args)
    let rest ← decodeTrailing cx r letters.length
    checkCommitted r.index .vars d.committedVars.length d.varsResult.length
    checkCommitted r.index .expressions d.committedExprs.length d.exprsResult.length
    return { d with
      baseUpdate := rest.baseUpdate
      returnValue := rest.returnValue
      callTarget := rest.callTarget }

end FactLift
