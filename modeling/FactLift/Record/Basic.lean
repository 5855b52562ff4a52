import FactLift.Error

/-! Records: the one shape in which facts travel.

The content of a record is a list of tags and a list of integer arguments; in a table it also has an
index, counted from one. The first tag says what kind of record it is. -/

namespace FactLift

/-- The content of a record. -/
structure Content where
  tags : List String
  args : List Int64
deriving DecidableEq, Repr, Inhabited

/-- Contents are ordered by their tags, then by their arguments. -/
instance : Ord Content :=
  ⟨compareLex (compareOn Content.tags) (compareOn Content.args)⟩

instance : Std.TransOrd Content :=
  inferInstanceAs (Std.TransCmp (compareLex _ _))

instance : Std.LawfulEqOrd Content where
  eq_of_compare {c c'} h := by
    obtain ⟨htags, hargs⟩ := Ordering.then_eq_eq.mp h
    have htags : c.tags = c'.tags := Std.LawfulEqOrd.eq_of_compare htags
    have hargs : c.args = c'.args := Std.LawfulEqOrd.eq_of_compare hargs
    cases c
    cases c'
    congr

/-- A record with its index. -/
structure Record where
  index : Nat
  content : Content
deriving DecidableEq, Repr

/-- The integer that refers to an index. -/
def reference (index : Nat) : Int64 :=
  Int64.ofNat index

namespace Record

abbrev tags (r : Record) : List String := r.content.tags

abbrev args (r : Record) : List Int64 := r.content.args

/-- The first tag; empty for a record without tags. -/
def kind (r : Record) : String :=
  r.tags.headD ""

/-- An error about this record of a table. -/
def malformed (r : Record) (table reason : String) : Error :=
  .malformed table r.index reason

def tag (r : Record) (table : String) (n : Nat) : Except Error String :=
  match r.tags[n]? with
  | some t => .ok t
  | none => .error (r.malformed table s!"missing tag {n}")

def arg (r : Record) (table : String) (n : Nat) : Except Error Int64 :=
  match r.args[n]? with
  | some a => .ok a
  | none => .error (r.malformed table s!"missing argument {n}")

/-- The argument at a position, as an index: it must not be negative. -/
def argIndex (r : Record) (table : String) (n : Nat) : Except Error Nat := do
  let raw ← r.arg table n
  if raw < 0 then
    .error (r.malformed table s!"argument {n} is not an index: {raw.toInt}")
  else
    return raw.toInt.toNat

/-- Asks for at least so many tags and arguments. -/
def expect (r : Record) (table : String) (tags args : Nat) : Except Error Unit :=
  if r.tags.length < tags ∨ r.args.length < args then
    .error (r.malformed table
      (s!"{r.kind} expects {tags} tags and {args} args, " ++
        s!"found {r.tags.length} and {r.args.length}"))
  else
    .ok ()

/-- The text of a record: `index: tags | arguments`. -/
def text (r : Record) : String :=
  s!"{r.index}: " ++ ",".intercalate r.tags ++ " | " ++
    ",".intercalate (r.args.map fun a => toString a.toInt)

end Record

end FactLift
