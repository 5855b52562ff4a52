import FactLift.FactFile.Load
import FactLift.Proofs.Except

/-! The kinds of sections.

A section is read by its heading. `Heading` has one constructor for each kind, so what is read is a
case of its own for each (`readSection_eq`), and the sections that start a function are those under
one of them. A text is loaded when all of its sections can be read, one after the other
(`load_eq_ok`). -/

namespace FactLift.FactFile

open C

/-- What the words of a header announce. -/
inductive Heading
  | program (name : String)
  | strings
  | types
  | typedefs
  | composite (key name : String) (rest : List String)
  | globals
  | function (name address : String)
  | table (name : String)
  | instructions
  | unknown
deriving DecidableEq

def headingOf : List String → Heading
  | ["PROGRAM", name] => .program name
  | ["STRINGS"] => .strings
  | ["TYPES"] => .types
  | ["TYPEDEFS"] => .typedefs
  | "COMPOSITE" :: key :: name :: rest => .composite key name rest
  | ["GLOBALS"] => .globals
  | ["FUNCTION", name, address] => .function name address
  | ["TABLE", name] => .table name
  | ["INSTRUCTIONS"] => .instructions
  | _ => .unknown

def Section.heading (s : Section) : Heading :=
  headingOf s.header.words

def readUnder (d : Draft) (s : Section) : Heading → Except Error Draft
  | .program name => return { d with name }
  | .strings => return { d with strings := d.strings ++ s.body.map Line.string }
  | .types => do return { d with types := ← readTypes d.types s.body }
  | .typedefs => do
    let definitions ← s.body.mapM (readTypedef d.types)
    return { d with
      globals := definitions.foldl (fun g (name, t) => g.addTypedef name t) d.globals }
  | .composite key name rest => do
    let isUnion ← readUnionMark s.header.number rest
    let key ← readIndex s.header.number key
    let fields ← s.body.mapM (readField d.types)
    d.addComposite s.header.number { name, key, isUnion, fields }
  | .globals => do
    let symbols ← s.body.mapM (readGlobal d.types)
    return { d with globals := symbols.foldl (fun g v => (g.addVariable v).2) d.globals }
  | .function name address => do
    let address ← readAddress s.header.number address
    let formals ← s.body.mapM (readFormal d.types)
    return { d with current := some { line := s.header.number, name, address, formals } }
  | .table name => do
    let f ← d.currentFunction s.header.number "TABLE"
    return { d with current := some (← readTable f s.header.number name s.body) }
  | .instructions => do
    let f ← d.currentFunction s.header.number "INSTRUCTIONS"
    let instructions ← s.body.mapM readInstruction
    return { d with current := some { f with instructions := f.instructions ++ instructions } }
  | .unknown =>
    .error (.parse s.header.number s!"unknown section {Text.quote s.header.string}")

/-- **Sections by heading.** -/
theorem readSection_eq (d : Draft) (s : Section) : readSection d s = readUnder d s s.heading := by
  unfold readSection Section.heading
  generalize s.header.words = words
  dsimp only
  split
  case h_10 =>
    have hunknown : headingOf words = .unknown := by rw [headingOf] <;> assumption
    rw [hunknown]
    rfl
  all_goals rfl

/-- Whether sections under the heading start a function. -/
def Heading.startsFunction : Heading → Bool
  | .function _ _ => true
  | _ => false

theorem startsFunction_eq (s : Section) : s.startsFunction = s.heading.startsFunction := by
  unfold Section.startsFunction Section.heading
  generalize s.header.words = words
  fun_cases headingOf words <;> simp [Heading.startsFunction]

/-! ### Sections in a row -/

/-- What has been read when a section comes: a section that starts a function closes the one before
it. -/
def Draft.meeting (d : Draft) (s : Section) : Draft :=
  if s.startsFunction then d.close else d

variable {d d' : Draft} {s : Section} {ss ss' : List Section}

theorem readSections_cons : readSections (s :: ss) d =
    match readSection (d.meeting s) s with
    | .ok d => readSections ss d
    | .error e => (some e, d.meeting s) := rfl

theorem readSections_cons_eq_ok : readSections (s :: ss) d = (none, d') ↔
    ∃ d₁, readSection (d.meeting s) s = .ok d₁ ∧ readSections ss d₁ = (none, d') := by
  rw [readSections_cons]
  cases readSection (d.meeting s) s with
  | error e => exact iff_of_false nofun nofun
  | ok d₁ => exact ⟨fun h => ⟨d₁, rfl, h⟩, fun ⟨_, hd₁, h⟩ => ok_inj.mp hd₁ ▸ h⟩

/-- Sections that can be read, and others behind them. -/
theorem readSections_append_of_ok (h : readSections ss d = (none, d')) :
    readSections (ss ++ ss') d = readSections ss' d' := by
  induction ss generalizing d with
  | nil =>
    obtain rfl := (Prod.mk.inj h).2
    rfl
  | cons s ss ih =>
    obtain ⟨d₁, hs, hss⟩ := readSections_cons_eq_ok.mp h
    rw [List.cons_append, readSections_cons, hs]
    exact ih hss

theorem readSections_append_eq_ok : readSections (ss ++ ss') d = (none, d') ↔
    ∃ d₁, readSections ss d = (none, d₁) ∧ readSections ss' d₁ = (none, d') := by
  constructor
  · intro h
    induction ss generalizing d with
    | nil => exact ⟨d, rfl, h⟩
    | cons s ss ih =>
      obtain ⟨d₁, hs, hss⟩ := readSections_cons_eq_ok.mp h
      obtain ⟨d₂, h₂, h'⟩ := ih hss
      exact ⟨d₂, readSections_cons_eq_ok.mpr ⟨d₁, hs, h₂⟩, h'⟩
  · rintro ⟨d₁, h, h'⟩
    rw [readSections_append_of_ok h, h']

variable {text : String}

theorem load_eq_ok {p : ProgramFacts} : (load text).1 = .ok p ↔
    ∃ d, readSections (sections text) {} = (none, d) ∧ d.close.program = p := by
  unfold load
  split
  next e d hread =>
    rw [hread]
    exact iff_of_false nofun nofun
  next d hread =>
    rw [hread]
    exact ok_inj.trans ⟨fun h => ⟨d, rfl, h⟩, fun ⟨_, hd, h⟩ => (Prod.mk.inj hd).2 ▸ h⟩

theorem load_of_read {r : Option Error × Draft} (hread : readSections (sections text) {} = r)
    (hr : r.1 = none) : (load text).1 = .ok r.2.close.program := by
  obtain ⟨e, d⟩ := r
  obtain rfl : e = none := hr
  exact load_eq_ok.mpr ⟨d, hread, rfl⟩

theorem load_of_error {e : Error} (h : (readSections (sections text) {}).1 = some e) :
    (load text).1 = .error e := by
  unfold load
  split
  next e' d hread =>
    rw [hread] at h
    exact congrArg Except.error (Option.some.inj h)
  next d hread =>
    rw [hread] at h
    cases h

end FactLift.FactFile
