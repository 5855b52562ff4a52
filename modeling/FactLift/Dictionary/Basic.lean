import FactLift.Record.Table

/-! The value dictionary of a function: eight tables of records that refer to each other.

| table        | tags                        | arguments              | meaning                     |
|--------------|-----------------------------|------------------------|-----------------------------|
| `symbol`     | name                        | number                 | a variable's name           |
| `variable`   | `v`                         | symbol                 | a variable                  |
| `denotation` | `r`, register / `f`, flag   |                        | register, flag              |
|              | `m`                         | base, size, offset     | memory                      |
|              | `a`                         | fixed value            | a fixed value               |
| `membase`    | `l` / `a` / `r` / `g`       |                        | the frames, the globals     |
|              | `v` / `u`, description      | variable /             | a variable, unknown         |
| `memoffset`  | `n` / `u`                   |                        | no offset, unknown          |
|              | `c`, value                  | sub                    | constant                    |
|              | `f`, name                   | composite, sub         | field                       |
|              | `a`                         | expression, sub        | index                       |
|              | `i`                         | variable, size, sub    | index variable              |
| `cvv`        | `ir`, register              | level                  | register at entry           |
|              | `iv`                        | variable               | memory at entry             |
|              | `fr`, call site, callee?    |                        | value a call returned       |
|              | `sv`, name                  | expression             | named expression            |
| `xpr`        | `v`                         | variable               | variable                    |
|              | `c`, value, `w64`?          |                        | integer                     |
|              | `ga`, address               |                        | global address              |
|              | `x`, operator               | operands               | compound                    |
| `interval`   | `i`, low, high              |                        | `-oo` and `oo` leave open   |
-/

namespace FactLift

/-- The tables of a dictionary. -/
inductive TableName
  | symbols | vars | meanings | bases | offsets | fixedValues | exprs | intervals
deriving DecidableEq, Repr

namespace TableName

def all : List TableName :=
  [symbols, vars, meanings, bases, offsets, fixedValues, exprs, intervals]

/-- The name in the facts and in messages. -/
def text : TableName → String
  | symbols => "symbol"
  | vars => "variable"
  | meanings => "denotation"
  | bases => "membase"
  | offsets => "memoffset"
  | fixedValues => "cvv"
  | exprs => "xpr"
  | intervals => "interval"

def ofText? (text : String) : Option TableName :=
  all.find? fun t => t.text == text

end TableName

/-- The tables of one function. -/
structure Dictionary where
  symbols : Table := { name := TableName.symbols.text }
  vars : Table := { name := TableName.vars.text }
  meanings : Table := { name := TableName.meanings.text }
  bases : Table := { name := TableName.bases.text }
  offsets : Table := { name := TableName.offsets.text }
  fixedValues : Table := { name := TableName.fixedValues.text }
  exprs : Table := { name := TableName.exprs.text }
  intervals : Table := { name := TableName.intervals.text }

namespace Dictionary

def table (d : Dictionary) : TableName → Table
  | .symbols => d.symbols
  | .vars => d.vars
  | .meanings => d.meanings
  | .bases => d.bases
  | .offsets => d.offsets
  | .fixedValues => d.fixedValues
  | .exprs => d.exprs
  | .intervals => d.intervals

def setTable (d : Dictionary) (name : TableName) (t : Table) : Dictionary :=
  match name with
  | .symbols => { d with symbols := t }
  | .vars => { d with vars := t }
  | .meanings => { d with meanings := t }
  | .bases => { d with bases := t }
  | .offsets => { d with offsets := t }
  | .fixedValues => { d with fixedValues := t }
  | .exprs => { d with exprs := t }
  | .intervals => { d with intervals := t }

/-- Mints a record in one of the tables. -/
def add (d : Dictionary) (name : TableName) (content : Content) : Nat × Dictionary :=
  let (index, t) := (d.table name).add content
  (index, d.setTable name t)

/-- Loads a record into one of the tables. -/
def insertAt (d : Dictionary) (name : TableName) (index : Nat) (content : Content) :
    Except Error Dictionary := do
  return d.setTable name (← (d.table name).insertAt index content)

end Dictionary

end FactLift
