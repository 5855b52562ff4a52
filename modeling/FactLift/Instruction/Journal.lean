import FactLift.Instruction.Decode

/-! What the decoding of a record leaves in the log.

Arguments are visited in order, up to the first that cannot be decoded. A value marked as not
available is noted, and so is a dataflow fact that the store cannot give. -/

namespace FactLift

/-- Notes a value that is marked as not available. -/
def markNote (index position : Nat) (what : String) (raw : Int64) : List LogRecord :=
  if raw = errorMark then
    [⟨.trace, "Error-valued field",
      [("index", toString index), ("position", toString position), ("kind", what)]⟩]
  else []

/-- Notes a dataflow fact that was asked for and is not there. -/
def flowNote (cx : DecodeContext) (index : Nat) (kind : FlowKind) (raw : Int64) :
    List LogRecord :=
  if requestsFlow kind raw then
    match cx.flows with
    | none =>
      [⟨.debug, "No invariant store for dataflow fact",
        [("index", toString index), ("letter", kind.letter.toString)]⟩]
    | some store =>
      match store.get? raw.toInt.toNat with
      | none =>
        [⟨.debug, "Dataflow fact not found",
          [("index", toString index), ("fact", toString raw.toInt)]⟩]
      | some f =>
        if f.kind = kind then []
        else
          [⟨.warning, "Dataflow fact of unexpected kind",
            [("index", toString index), ("expected", kind.letter.toString),
              ("found", f.kind.letter.toString)]⟩]
  else []

/-- The notes on the argument under a letter. -/
def letterNote (cx : DecodeContext) (index : Nat) (form : KeyForm) (position : Nat)
    (letter : Char) (raw : Int64) : List LogRecord :=
  match letter, form with
  | 'v', .result => markNote index position "variable" raw
  | 'w', _ => markNote index position "committed variable" raw
  | 'x', .result => markNote index position "expression" raw
  | 'c', _ => markNote index position "committed expression" raw
  | _, _ =>
    match FlowKind.ofLetter? letter with
    | some kind => flowNote cx index kind raw
    | none => []

/-- The notes on the arguments under letters, as far as they can be decoded. -/
def letterNotes (cx : DecodeContext) (r : Record) (form : KeyForm) :
    Nat → List Char → List Int64 → List LogRecord
  | position, letter :: letters, raw :: args =>
    match decodeLetter cx r form position letter raw with
    | .error _ => []
    | .ok _ =>
      letterNote cx r.index form position letter raw ++
        letterNotes cx r form (position + 1) letters args
  | _, _, _ => []

/-- The notes on the arguments after those of the letters, as far as they can be decoded. -/
def trailingNotes (cx : DecodeContext) (r : Record) (position : Nat) : List LogRecord :=
  let arg (n : Nat) := r.args.getD n 0
  let decodes {α : Type} (n : Nat) (get : Nat → Except Error α) : Bool :=
    (optional r.index n (arg n) get).toBool
  let returned (n : Nat) :=
    if r.hasReturnValue && decodes n cx.dictionary.decodeExpr then
      markNote r.index n "return value" (arg n)
    else []
  if r.hasBaseUpdate then
    if decodes position cx.dictionary.decodeVariable then
      markNote r.index position "base update" (arg position) ++
        (if decodes (position + 1) cx.dictionary.decodeExpr then
          markNote r.index (position + 1) "base update" (arg (position + 1)) ++
            returned (position + 2)
        else [])
    else []
  else returned position

/-- Everything that decoding a record leaves in the log. -/
def decodeNotes (cfg : Config) (cx : DecodeContext) (r : Record) : List LogRecord :=
  match r.letters? with
  | none =>
    if r.key == "subsumes" then
      [⟨.info, "Subsuming records are not supported; decoding as empty",
        [("index", toString r.index)]⟩]
    else []
  | some (form, letters) =>
    if r.args.length ≠ letters.length + r.trailingCount then []
    else
      letterNotes cx r form 0 letters r.args ++
        (if (decodeLetters cx r form 0 letters r.args).toBool then
          trailingNotes cx r letters.length
        else []) ++
        (match decodeRecord cx r with
        | .ok d =>
          if cfg.logDecoded then
            [⟨.debug, "Decoded xdata", [("record", r.text), ("fields", d.text)]⟩]
          else []
        | .error _ => [])

end FactLift
