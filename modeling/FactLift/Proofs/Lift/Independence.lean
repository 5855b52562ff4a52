import FactLift.Proofs.FactFile.Heading
import FactLift.Proofs.FactFile.Load
import FactLift.Proofs.FactFile.Numbering
import FactLift.Proofs.Lift.Growth

/-! One lift after another.

A lift leaves the global symbols that it made up to those after it. A function is lifted as if it
came first if the symbols that are there answer its questions as those of the program do
(`liftFunction_independent`), and they do so unless a question of the other function disturbs them
(`FunctionFacts.answersAlike`). It is not so for any two functions: an address that is used as a
number becomes that of a variable once an access made one up there (`lift_order_matters`). -/

namespace FactLift

open C

/-- What is printed of a lifted function: its bodies, at a depth, and its diagnostics. -/
def LiftedFunction.printed (depth : Nat) (l : LiftedFunction) : Forms String × List Diagnostic :=
  (l.body.map (·.text depth), l.diagnostics)

/-- Numbers are not printed. -/
theorem map_printed_eq {r r' : Except Error LiftedFunction}
    (h : r.map LiftedFunction.unnumbered = r'.map LiftedFunction.unnumbered) (depth : Nat) :
    r.map (LiftedFunction.printed depth) = r'.map (LiftedFunction.printed depth) := by
  have hprinted (r : Except Error LiftedFunction) : r.map (LiftedFunction.printed depth) =
      (r.map LiftedFunction.unnumbered).map fun (body, _, diagnostics) =>
        (body.map (·.text depth), diagnostics) := by
    cases r with
    | error e => rfl
    | ok l =>
      simp only [Except.map, LiftedFunction.printed, LiftedFunction.unnumbered, Forms.map,
        Stmt.text_unnumbered]
  rw [hprinted, hprinted, h]

variable {text : String} {p : ProgramFacts}

/-- Lifting a function answers the questions of another one as before, if it asks none that disturbs
them. -/
theorem FunctionFacts.answersAlike (hp : (FactFile.load text).1 = .ok p) (cfg : Config)
    {f g : FunctionFacts} {w : Workspace} (hw : w.globals = p.globals)
    (hapart : ∀ q ∈ f.lookups p, ∀ q' ∈ g.lookups p, ¬ q.Disturbs p.globals q') :
    ∀ q' ∈ g.lookups p, p.globals.AnswersAlike (liftFunction cfg p f w).2.globals q' := by
  intro q' hq'
  have hregistered := FactFile.load_registered hp
  have hmade := liftFunction_made (hw ▸ hregistered) cfg p f
  rw [hw] at hmade
  exact hmade.answersAlike hregistered fun q hq => hapart q hq q' hq'

/-- **Independence.** A function is lifted as it is when it comes first, if the lift before it left
the global symbols answering its questions as those of the program do. -/
theorem liftFunction_independent (hp : (FactFile.load text).1 = .ok p) (cfg : Config)
    (f g : FunctionFacts) {w : Workspace} (hw : w.globals = p.globals)
    (hanswers : ∀ q ∈ g.lookups p, p.globals.AnswersAlike (liftFunction cfg p f w).2.globals q)
    (depth : Nat) :
    (liftFunction cfg p g (liftFunction cfg p f w).2).1.map (LiftedFunction.printed depth) =
      (liftFunction cfg p g w).1.map (LiftedFunction.printed depth) := by
  have hregistered : w.globals.Registered := hw ▸ FactFile.load_registered hp
  have hmade := liftFunction_made hregistered cfg p f
  let c : Pairing := ⟨g.lookups p, w, (liftFunction cfg p f w).2⟩
  have halike : c.left.globals.Alike c.asks c.right.globals :=
    ⟨hmade.sameTypes, hregistered, hregistered.made hmade, fun q hq => hw ▸ hanswers q hq⟩
  exact (map_printed_eq (Pairing.liftFunction_agrees halike cfg (List.Subset.refl _)).1 depth).symm

/-! ### A program where the order matters -/

/-- The lines of a function that writes a constant to the global address `0x1000`. -/
def storingLines (name address : String) : List String :=
  ["FUNCTION " ++ name ++ " " ++ address, "",
    "TABLE symbol", "1: g | 1", "",
    "TABLE membase", "1: g |", "",
    "TABLE memoffset", "1: n |", "2: c,4096 | 1", "",
    "TABLE denotation", "1: m | 1,4,2", "",
    "TABLE variable", "1: v | 1", "",
    "TABLE xpr", "1: c,1 |", "",
    "INSTRUCTIONS", address ++ " 4 assign | 1,2 ; a:vx | 1,1", ""]

/-- The lines of a function that returns the address as a number. -/
def returningLines : List String :=
  ["FUNCTION take 0x500", "",
    "TABLE xpr", "1: ga,0x1000 |", "",
    "INSTRUCTIONS", "0x500 4 return | ; a:x | 1", ""]

/-- The characters of a fact file with two functions that store and one that returns. -/
def sharingChars : List Char :=
  (storingLines "store" "0x400" ++ returningLines ++ storingLines "clear" "0x600").flatMap
    fun l => l.toList ++ ['\n']

/-- The high-level body that a lift gives, as text. -/
def highText? (r : Except Error LiftedFunction × Workspace) : Option String :=
  r.1.toOption.map (·.body.high.text 0)

/-- The address that is returned is a number, unless a function that stores there was lifted before.
Two functions that store there do not disturb each other. -/
def Sharing (p : ProgramFacts) (store take clear : FunctionFacts) : Prop :=
  store.name ≠ take.name ∧ store.name ≠ clear.name ∧
    highText? (liftFunction {} p take { globals := p.globals }) = some "return 4096U;" ∧
    highText? (liftFunction {} p take (liftFunction {} p store { globals := p.globals }).2) =
      some "return &gv_1000;" ∧
    ∀ q ∈ store.lookups p, ∀ q' ∈ clear.lookups p, ¬ q.Disturbs p.globals q'

instance (p : ProgramFacts) (store take clear : FunctionFacts) :
    Decidable (Sharing p store take clear) :=
  inferInstanceAs (Decidable (_ ∧ _ ∧ _ ∧ _ ∧ _))

def ReadsSharing (r : Option Error × FactFile.Draft) : Prop :=
  r.1 = none ∧ ∃ store ∈ r.2.close.functions, ∃ take ∈ r.2.close.functions,
    ∃ clear ∈ r.2.close.functions, Sharing r.2.close.program store take clear

instance (r : Option Error × FactFile.Draft) : Decidable (ReadsSharing r) :=
  inferInstanceAs (Decidable (_ ∧ _))

theorem load_of_readsSharing {r : Option Error × FactFile.Draft}
    (h : FactFile.readSections (FactFile.sections text) {} = r) (hr : ReadsSharing r) :
    ∃ p, (FactFile.load text).1 = .ok p ∧ ∃ store ∈ p.functions, ∃ take ∈ p.functions,
      ∃ clear ∈ p.functions, Sharing p store take clear := by
  obtain ⟨hnone, hfunctions⟩ := hr
  exact ⟨r.2.close.program, FactFile.load_of_read h hnone, hfunctions⟩

theorem load_sharing : ∃ p, (FactFile.load (String.ofList sharingChars)).1 = .ok p ∧
    ∃ store ∈ p.functions, ∃ take ∈ p.functions, ∃ clear ∈ p.functions,
      Sharing p store take clear := by
  have hreads : ReadsSharing
      (FactFile.readSections (FactFile.sectionsOfChars sharingChars) {}) := by decide +kernel
  exact load_of_readsSharing
    (congrArg (FactFile.readSections · {}) (FactFile.sections_ofList sharingChars)) hreads

/-- **Order matters.** What a function is lifted to may depend on what was lifted before. -/
theorem lift_order_matters :
    ¬ ∀ (text : String) (p : ProgramFacts) (cfg : Config) (f g : FunctionFacts) (w : Workspace),
      (FactFile.load text).1 = .ok p → f ∈ p.functions → g ∈ p.functions → f ≠ g →
        w.globals = p.globals → ∀ depth,
          (liftFunction cfg p g (liftFunction cfg p f w).2).1.map (LiftedFunction.printed depth) =
            (liftFunction cfg p g w).1.map (LiftedFunction.printed depth) := by
  intro h
  obtain ⟨p, hload, store, hstore, take, htake, -, -, hne, -, hfirst, hafter, -⟩ := load_sharing
  have hsame := h _ p {} store take { globals := p.globals } hload hstore htake
    (fun heq => hne (congrArg FunctionFacts.name heq)) rfl 0
  have htext (r : Except Error LiftedFunction × Workspace) : highText? r =
      (r.1.map (LiftedFunction.printed 0)).toOption.map (·.1.high) := by
    obtain ⟨_ | l, w⟩ := r <;> rfl
  rw [htext, ← hsame, ← htext, hafter] at hfirst
  exact absurd hfirst (by decide)

/-- Two functions that store at the same address. -/
theorem liftFunction_independent_of_stores :
    ∃ p store clear, (FactFile.load (String.ofList sharingChars)).1 = .ok p ∧
      store ∈ p.functions ∧ clear ∈ p.functions ∧ store.name ≠ clear.name ∧ ∀ depth,
        (liftFunction {} p clear (liftFunction {} p store { globals := p.globals }).2).1.map
            (LiftedFunction.printed depth) =
          (liftFunction {} p clear { globals := p.globals }).1.map
            (LiftedFunction.printed depth) := by
  obtain ⟨p, hload, store, hstore, take, -, clear, hclear, -, hne, -, -, hapart⟩ := load_sharing
  refine ⟨p, store, clear, hload, hstore, hclear, hne, fun depth => ?_⟩
  exact liftFunction_independent hload {} store clear rfl
    (FunctionFacts.answersAlike hload {} rfl hapart) depth

end FactLift
