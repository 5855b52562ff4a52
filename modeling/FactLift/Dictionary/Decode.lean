import FactLift.Dictionary.Basic
import FactLift.Sym.Fold
import FactLift.Sym.Interval
import FactLift.Text.Integer

/-! Decoding: from the records of a dictionary to symbolic values.

A value may nest at most `maxDepth` records below its own, which also stops references that go
around in circles. The decoders count down the levels that are left. -/

namespace FactLift.Dictionary

open FactLift.Sym

/-- How many levels of records a value may have below its own. -/
def maxDepth : Nat := 256

def integerTag (r : Record) (table : String) (n : Nat) : Except Error Int64 := do
  let s ← r.tag table n
  match Text.parseInt64? s with
  | some v => return v
  | none => .error (r.malformed table s!"not an integer: {Text.quote s}")

/-- The error for a value that nests too deep. -/
def tooDeep (name : TableName) (index : Nat) : Error :=
  .malformed name.text index "values nest too deep"

/-- The error for a record of a kind that its table does not have. -/
def unknownKind (r : Record) (name : TableName) (what : String) : Error :=
  r.malformed name.text s!"unknown {what} {Text.quote r.kind}"

mutual

def variableAt (d : Dictionary) : Nat → Nat → Except Error Variable
  | 0, index => .error (tooDeep .vars index)
  | levels + 1, index => do
    let table := TableName.vars.text
    let r ← d.vars.get index
    r.expect table 1 1
    let s ← d.symbols.get (← r.argIndex table 0)
    s.expect TableName.symbols.text 1 1
    let number := s.args.headD 0
    let meaning ←
      if 0 < number then d.meaningAt levels number.toInt.toNat else pure .absent
    return ⟨s.kind, number, meaning⟩
termination_by structural levels => levels

/-- What the variable with a number denotes. -/
def meaningAt (d : Dictionary) : Nat → Nat → Except Error Meaning
  | 0, index => .error (tooDeep .meanings index)
  | levels + 1, index => do
    let table := TableName.meanings.text
    let r ← d.meanings.get index
    match r.kind with
    | "r" => return .register (← r.tag table 1)
    | "f" => return .flag (← r.tag table 1)
    | "m" =>
      r.expect table 1 3
      let base ← d.baseAt levels (← r.argIndex table 0)
      let size ← r.argIndex table 1
      let offset ← d.offsetAt levels (← r.argIndex table 2)
      return .memory base size offset
    | "a" => return .fixed (← d.fixedValueAt levels (← r.argIndex table 0))
    | _ => .error (unknownKind r .meanings "denotation")
termination_by structural levels => levels

def baseAt (d : Dictionary) : Nat → Nat → Except Error Base
  | 0, index => .error (tooDeep .bases index)
  | levels + 1, index => do
    let r ← d.bases.get index
    match r.kind with
    | "l" => return .localFrame
    | "a" => return .allocatedFrame
    | "r" => return .realignedFrame
    | "g" => return .globals
    | "v" => return .pointer (← d.variableAt levels (← r.argIndex TableName.bases.text 0))
    | "u" => return .unknown (r.tags.getD 1 "")
    | _ => .error (unknownKind r .bases "memory base")
termination_by structural levels => levels

def offsetAt (d : Dictionary) : Nat → Nat → Except Error Offset
  | 0, index => .error (tooDeep .offsets index)
  | levels + 1, index => do
    let table := TableName.offsets.text
    let r ← d.offsets.get index
    match r.kind with
    | "n" => return .none
    | "u" => return .unknown
    | "c" =>
      let value ← integerTag r table 1
      return .const value (← d.offsetAt levels (← r.argIndex table 0))
    | "f" =>
      let name ← r.tag table 1
      let key ← r.argIndex table 0
      return .field name key (← d.offsetAt levels (← r.argIndex table 1))
    | "a" =>
      let i ← d.exprAt levels (← r.argIndex table 0)
      return .index i (← d.offsetAt levels (← r.argIndex table 1))
    | "i" =>
      let v ← d.variableAt levels (← r.argIndex table 0)
      let elementSize ← r.argIndex table 1
      return .indexVar v elementSize (← d.offsetAt levels (← r.argIndex table 2))
    | _ => .error (unknownKind r .offsets "memory offset")
termination_by structural levels => levels

def fixedValueAt (d : Dictionary) : Nat → Nat → Except Error FixedValue
  | 0, index => .error (tooDeep .fixedValues index)
  | levels + 1, index => do
    let table := TableName.fixedValues.text
    let r ← d.fixedValues.get index
    match r.kind with
    | "ir" => return .initialRegister (← r.tag table 1) (r.args.headD 0)
    | "iv" => return .initialMemory (← d.variableAt levels (← r.argIndex table 0))
    | "fr" => return .returnValue (← integerTag r table 1).toUInt64 r.tags[2]?
    | "sv" =>
      let name ← r.tag table 1
      return .symbolic name (← d.exprAt levels (← r.argIndex table 0))
    | _ => .error (unknownKind r .fixedValues "constant-value variable")
termination_by structural levels => levels

def exprAt (d : Dictionary) : Nat → Nat → Except Error Expr
  | 0, index => .error (tooDeep .exprs index)
  | levels + 1, index => do
    let table := TableName.exprs.text
    let r ← d.exprs.get index
    match r.kind with
    | "v" => return .var (← d.variableAt levels (← r.argIndex table 0))
    | "c" =>
      let value ← integerTag r table 1
      match r.tags[2]? with
      | none => return .const (.atWidth value .w32)
      | some "w64" => return .const (.atWidth value .w64)
      | some w => .error (r.malformed table s!"unknown width {Text.quote w}")
    | "ga" => return .const (.address (← integerTag r table 1).toUInt64)
    | "x" =>
      let name ← r.tag table 1
      match Op.ofName? name with
      | none => .error (r.malformed table s!"unknown operator {Text.quote name}")
      | some op =>
        let operands ← (List.range r.args.length).mapM fun n => do
          d.exprAt levels (← r.argIndex table n)
        return .apply op operands
    | _ => .error (unknownKind r .exprs "expression")
termination_by structural levels => levels

end

/-- The variable at an index, at any permitted depth. -/
def decodeVariable (d : Dictionary) (index : Nat) : Except Error Variable :=
  d.variableAt (maxDepth + 1) index

/-- The expression at an index, at any permitted depth. -/
def decodeExpr (d : Dictionary) (index : Nat) : Except Error Expr :=
  d.exprAt (maxDepth + 1) index

/-- A bound of an interval, open if it is the given text. -/
def bound (r : Record) (n : Nat) (unbounded : String) : Except Error (Option Int64) := do
  if r.tags[n]? = some unbounded then return none
  else return some (← integerTag r TableName.intervals.text n)

def decodeInterval (d : Dictionary) (index : Nat) : Except Error Interval := do
  let r ← d.intervals.get index
  r.expect TableName.intervals.text 3 0
  let low ← bound r 1 "-oo"
  let high ← bound r 2 "oo"
  return ⟨low, high⟩

end FactLift.Dictionary
