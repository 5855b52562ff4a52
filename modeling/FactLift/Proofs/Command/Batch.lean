import FactLift.Command.Memory
import FactLift.Proofs.FactFile.Functions
import FactLift.Proofs.FactFile.Numbering

/-! All functions of a fact file, in one run of the command.

The functions are lifted in order, each where the one before it left off, whether that was lifted or
not; files that cannot be written are only logged. What is printed for those that are lifted is put
one behind the other (`liftEach_batch`), and every function of the fact file is counted once, as
lifted or as failed (`liftProgram_accounts_for_functions`).

That is so as long as no lift ends in a fault. A fault ends the run before anything is printed, and
the functions that were lifted before are lost with those that come after
(`liftProgram_loses_sound`). -/

namespace FactLift.Command

/-! ### Lifts in turn -/

/-- The lines that are printed for a function: its listing, and below it the one at the low level, if
that is asked for. An empty line ends each. -/
def printedLines (o : Options) (g : Globals) (f : LiftedFunction) : List String :=
  f.listingLines g f.body.high ++ [""] ++
    if o.lowLevel then "// low level" :: f.listingLines g f.body.low ++ [""] else []

/-- Lines as a text. -/
def textOf (lines : List String) : String :=
  String.join (lines.map (· ++ "\n"))

theorem textOf_append (lines lines' : List String) :
    textOf (lines ++ lines') = textOf lines ++ textOf lines' := by
  rw [textOf, List.map_append, String.join_append, ← textOf, ← textOf]

theorem listing_eq (o : Options) (g : Globals) (f : LiftedFunction) :
    listing o g f = textOf (printedLines o g f) := by
  have hlisting (body : C.Stmt) : f.listing g body = textOf (f.listingLines g body) := rfl
  have hempty : textOf [""] = "\n" := by decide
  have hheading (lines : List String) :
      textOf ("// low level" :: lines) = "// low level\n" ++ textOf lines := by
    rw [← List.singleton_append, textOf_append]
    rfl
  rw [listing, printedLines, textOf_append, textOf_append, hlisting, hlisting, hempty]
  split
  · rw [List.cons_append, hheading, textOf_append, hempty]
    simp only [String.append_assoc]
  · rfl

/-- Functions that are lifted one after the other, the log apart, up to the first whose lift ends in a
fault, with what is printed for each: from a workspace to the one that is left. -/
inductive LiftedInTurn (o : Options) (program : ProgramFacts) :
    List FunctionFacts → Workspace → List (Except Error (List String)) → Workspace → Prop
  | nil (w : Workspace) : LiftedInTurn o program [] w [] w
  | cons {f : FunctionFacts} {fs : List FunctionFacts} {w w₁ w₂ w' : Workspace}
      {outcome : Except Error LiftedFunction} {printed : List (Except Error (List String))}
      (first : liftFunction (Config.ofFlags o.flags) program f w = (outcome, w₁))
      (sound : w₁.fault = none) (logged : w₂ = { w₁ with log := w₂.log })
      (others : LiftedInTurn o program fs w₂ printed w') :
      LiftedInTurn o program (f :: fs) w (outcome.map (printedLines o w₁.globals) :: printed) w'
  | stop {f : FunctionFacts} {fs : List FunctionFacts} {w w₁ : Workspace}
      {outcome : Except Error LiftedFunction}
      (first : liftFunction (Config.ofFlags o.flags) program f w = (outcome, w₁))
      (fault : w₁.fault.isSome) : LiftedInTurn o program (f :: fs) w [] w₁

theorem LiftedInTurn.length_eq {o : Options} {program : ProgramFacts} {fs : List FunctionFacts}
    {w w' : Workspace} {printed : List (Except Error (List String))}
    (h : LiftedInTurn o program fs w printed w') (hw' : w'.fault = none) :
    printed.length = fs.length := by
  induction h with
  | nil w => rfl
  | cons _ _ _ _ ih => rw [List.length_cons, List.length_cons, ih hw']
  | stop _ fault => simp [hw'] at fault

/-- The outcome of lifting functions in turn. -/
structure Batch (o : Options) (program : ProgramFacts) (fs : List FunctionFacts)
    (w : Workspace) where
  printed : List (Except Error (List String))
  workspace : Workspace
  inTurn : LiftedInTurn o program fs w printed workspace

namespace Batch

variable {o : Options} {program : ProgramFacts} {fs : List FunctionFacts} {w : Workspace}

/-- What is printed for the functions that were lifted, one after the other. -/
def text (b : Batch o program fs w) : String :=
  textOf (b.printed.filterMap Except.toOption).flatten

/-- The number of functions that were lifted. -/
def lifted (b : Batch o program fs w) : Nat :=
  b.printed.countP Except.isOk

/-- The number of functions that were not. -/
def failed (b : Batch o program fs w) : Nat :=
  b.printed.countP (!·.isOk)

theorem lifted_add_failed (b : Batch o program fs w) (h : b.workspace.fault = none) :
    b.lifted + b.failed = fs.length := by
  have hfailed : b.failed = b.printed.countP fun r => decide ¬ r.isOk = true :=
    List.countP_congr fun r _ => by simp
  rw [← b.inTurn.length_eq h, hfailed, lifted, ← List.length_eq_countP_add_countP]

/-- The outcome with one more function in front. -/
def cons {f : FunctionFacts} {outcome : Except Error LiftedFunction} {w₁ w₂ : Workspace}
    (first : liftFunction (Config.ofFlags o.flags) program f w = (outcome, w₁))
    (sound : w₁.fault = none) (logged : w₂ = { w₁ with log := w₂.log })
    (b : Batch o program fs w₂) : Batch o program (f :: fs) w where
  printed := outcome.map (printedLines o w₁.globals) :: b.printed
  workspace := b.workspace
  inTurn := .cons first sound logged b.inTurn

section Cons

variable {f : FunctionFacts} {w₁ w₂ : Workspace} {outcome : Except Error LiftedFunction}
  (first : liftFunction (Config.ofFlags o.flags) program f w = (outcome, w₁))
  (sound : w₁.fault = none) (logged : w₂ = { w₁ with log := w₂.log }) (b : Batch o program fs w₂)

theorem text_cons : (b.cons first sound logged).text =
    (outcome.map (listing o w₁.globals)).toOption.getD "" ++ b.text := by
  unfold text cons
  cases outcome with
  | error e => exact String.empty_append.symm
  | ok lifted =>
    show textOf (printedLines o w₁.globals lifted ++ _) = _
    rw [textOf_append, ← listing_eq]
    rfl

theorem failed_cons :
    (b.cons first sound logged).failed = b.failed + if outcome.isOk then 0 else 1 := by
  unfold failed cons
  rw [List.countP_cons]
  cases outcome <;> rfl

end Cons

end Batch

/-! ### One function after the other -/

section

variable {m : Type → Type} [Monad m] [LawfulMonad m] (files : Files m) (o : Options)
  (program : ProgramFacts)

/-- A graph that cannot be written only goes to the log. -/
theorem writeGraph_eq (f : LiftedFunction) (p : Progress) : ∃ logs : m Log,
    writeGraph files o f p =
      (fun log => { p with workspace := { p.workspace with log } }) <$> logs := by
  refine ⟨(·.workspace.log) <$> writeGraph files o f p, ?_⟩
  rw [Functor.map_map]
  unfold writeGraph
  cases o.graphs with
  | none => rw [map_pure]
  | some directory =>
    rw [map_bind]
    refine bind_congr fun r => ?_
    cases r with
    | error e =>
      dsimp only
      rw [map_pure]
      rfl
    | ok _ =>
      dsimp only
      rw [map_pure]

theorem foldl_note {α : Type} (record : α → LogRecord) (as : List α) (p : Progress) :
    ∃ log, as.foldl (fun p a => p.note (record a)) p =
      { p with workspace := { p.workspace with log } } := by
  induction as generalizing p with
  | nil => exact ⟨p.workspace.log, rfl⟩
  | cons a as ih => exact ih (p.note (record a))

/-- What a function whose lift ends without a fault does to a run. -/
structure Stepped (p : Progress) (outcome : Except Error LiftedFunction) (w : Workspace)
    (q : Progress) : Prop where
  logged : q.workspace = { w with log := q.workspace.log }
  out : q.out = p.out ++ (outcome.map (listing o w.globals)).toOption.getD ""
  failed : q.failed = p.failed + if outcome.isOk then 0 else 1

/-- **The step.** -/
theorem liftEach_cons {f : FunctionFacts} {p : Progress} {outcome : Except Error LiftedFunction}
    {w : Workspace}
    (hlift : liftFunction (Config.ofFlags o.flags) program f p.workspace = (outcome, w))
    (sound : w.fault = none) (fs : List FunctionFacts) :
    ∃ steps : m { q : Progress // Stepped o p outcome w q },
      liftEach files o program (f :: fs) p =
        steps >>= fun q => liftEach files o program fs q.1 := by
  have hfault : w.fault.isSome = false := by rw [sound, Option.isSome_none]
  rw [liftEach, hlift]
  simp only [hfault, Bool.false_eq_true, if_false]
  cases outcome with
  | error e =>
    refine ⟨pure ⟨{ p with workspace := w.note (notLifted f.name e), failed := p.failed + 1 },
      ⟨rfl, String.append_empty.symm, rfl⟩⟩, ?_⟩
    rw [pure_bind]
    rfl
  | ok lifted =>
    dsimp only
    obtain ⟨log, hlog⟩ := foldl_note (fun d : Diagnostic => ⟨.info, "Diagnostic",
      [("function", lifted.name), ("diagnostic", d.text)]⟩) lifted.diagnostics
      { p with workspace := w }
    rw [hlog]
    obtain ⟨logs, hlogs⟩ := writeGraph_eq files o lifted
      { p with workspace := { w with log }, out := p.out ++ listing o w.globals lifted }
    refine ⟨(fun log => ⟨{ p with workspace := { w with log }
                                  out := p.out ++ listing o w.globals lifted },
      ⟨rfl, rfl, rfl⟩⟩) <$> logs, ?_⟩
    rw [hlogs, bind_map_left, bind_map_left]

omit [LawfulMonad m] in
/-- A fault ends the run. -/
theorem liftEach_stop {f : FunctionFacts} {p : Progress} {outcome : Except Error LiftedFunction}
    {w : Workspace}
    (hlift : liftFunction (Config.ofFlags o.flags) program f p.workspace = (outcome, w))
    (fault : w.fault.isSome) (fs : List FunctionFacts) :
    liftEach files o program (f :: fs) p = pure { p with workspace := w } := by
  rw [liftEach, hlift]
  simp only [fault, if_true]

/-- **The run.** -/
theorem liftEach_batch (fs : List FunctionFacts) (p : Progress) :
    ∃ run : m (Batch o program fs p.workspace), liftEach files o program fs p =
      (fun b => { workspace := b.workspace, out := p.out ++ b.text, failed := p.failed + b.failed })
        <$> run := by
  induction fs generalizing p with
  | nil =>
    exact ⟨pure ⟨[], p.workspace, .nil _⟩, by simp [liftEach, Batch.text, Batch.failed, textOf]⟩
  | cons f fs ih =>
    obtain ⟨outcome, w, hlift⟩ : ∃ outcome w,
        liftFunction (Config.ofFlags o.flags) program f p.workspace = (outcome, w) := ⟨_, _, rfl⟩
    cases hfault : w.fault with
    | some fault =>
      have hsome : w.fault.isSome := by rw [hfault, Option.isSome_some]
      refine ⟨pure ⟨[], w, .stop hlift hsome⟩, ?_⟩
      rw [liftEach_stop files o program hlift hsome, map_pure]
      simp [Batch.text, Batch.failed, textOf]
    | none =>
      obtain ⟨steps, hsteps⟩ := liftEach_cons files o program hlift hfault fs
      -- The rest runs from wherever the files leave the log, so its run depends on the step's.
      choose run hrun using ih
      refine ⟨steps >>= fun q => Batch.cons hlift hfault q.2.logged <$> run q.1, ?_⟩
      rw [hsteps, map_bind]
      refine bind_congr fun q => ?_
      rw [hrun, Functor.map_map]
      refine congrArg (· <$> run q.1) (funext fun b => ?_)
      rw [Batch.text_cons, Batch.failed_cons, q.2.out, q.2.failed, String.append_assoc]
      simp [Batch.cons]
      omega

/-! ### All of them -/

/-- Where the functions of a program are lifted: those that were set aside are in the log. -/
def start (log : Log) : Workspace where
  globals := program.globals
  log := program.rejected.foldl (fun log (name, e) => log.push (notLifted name e)) log

/-- How a run over the functions ends. After a fault nothing is printed. Otherwise all that is printed
goes to the file that is asked for, or to standard output, and the counts go to the log. -/
def report {w : Workspace} (b : Batch o program program.functions w) : m Report := do
  let failed := program.rejected.length + b.failed
  let log := b.workspace.log
  let done : LogRecord := ⟨.info, "Done",
    [("program", program.name), ("lifted", toString b.lifted), ("failed", toString failed)]⟩
  match b.workspace.fault, o.outputC with
  | some fault, _ => return ⟨fault.exit, "", log⟩
  | none, none => return ⟨0, b.text, log.push done⟩
  | none, some path =>
    match ← files.write path b.text with
    | .ok _ => return ⟨0, "", log.push done⟩
    | .error e => return ⟨1, "", log.push ⟨.critical, "Output could not be written", [("error", e)]⟩⟩

/-- What is printed is written in one piece, and every function is counted once. -/
theorem liftProgram_batch (log : Log) :
    ∃ run : m (Batch o program program.functions (start program log)),
      liftProgram files o program log = run >>= fun b => report files o program b := by
  obtain ⟨run, hrun⟩ := liftEach_batch files o program program.functions
    { workspace := start program log, failed := program.rejected.length }
  refine ⟨run, ?_⟩
  unfold liftProgram
  refine (congrArg (· >>= _) hrun).trans ?_
  rw [bind_map_left]
  refine bind_congr fun b => ?_
  unfold report
  rw [String.empty_append]
  cases hfault : b.workspace.fault with
  | some fault => rfl
  | none =>
    have hlifted : program.functions.length + program.rejected.length -
        (program.rejected.length + b.failed) = b.lifted := by
      rw [← b.lifted_add_failed hfault]
      omega
    simp only [hlifted, writeListings]
    cases o.outputC with
    | none =>
      simp only [pure_bind]
      rfl
    | some path =>
      refine bind_congr fun written => ?_
      cases written <;> rfl

/-- **Every function is accounted for.** Each section of a loaded text that starts a function is
read by itself into one of the two lists of the program, in order, and it is set aside exactly when
it is refused. The run over the program lifts the functions in order, up to the first whose lift ends
in a fault. If none does, the lines that are printed are those of the functions that are lifted, in
order, and the counts that are reported add up to the number of functions in the text. -/
theorem liftProgram_accounts_for_functions {text : String} {p : ProgramFacts}
    (hload : (FactFile.load text).1 = .ok p) (log : Log) :
    (∃ drafts, FactFile.Accounted (FactFile.sections text) p drafts) ∧
      (∃ run : m (Batch o p p.functions (start p log)),
        liftProgram files o p log = run >>= fun b => report files o p b) ∧
      ∀ b : Batch o p p.functions (start p log), b.workspace.fault = none →
        b.lifted + (p.rejected.length + b.failed) =
          (FactFile.sections text).countP FactFile.Section.isFunction := by
  obtain ⟨drafts, haccounted⟩ := FactFile.load_functions hload
  refine ⟨⟨drafts, haccounted⟩, liftProgram_batch files o p log, fun b hb => ?_⟩
  rw [← haccounted.length, ← b.lifted_add_failed hb]
  omega

end

/-! ### Functions that are lifted, set aside and lost -/

/-- A run without any switches. -/
def plainOptions : Options where
  facts := "functions.facts"
  outputC := none
  lowLevel := false
  graphs := none
  quiet := false
  logFile := none
  verbosity := 0
  flags := []

/-- A run over a program, with no files. -/
def plainRun (p : ProgramFacts) : Report :=
  (liftProgram memoryFiles plainOptions p #[] { directories := [] }).1

/-- The lift of the first function of a program. -/
def firstLift? (p : ProgramFacts) : Option (Except Error LiftedFunction × Workspace) :=
  p.functions.head?.map fun f => liftFunction (Config.ofFlags plainOptions.flags) p f (start p #[])

/-- Without composites, what is printed for a function is the function itself. -/
theorem printedLines_plain {g : Globals} {f : LiftedFunction} (h : f.mentionedKeys = []) :
    printedLines plainOptions g f = f.functionLines g f.body.high ++ [""] := by
  simp [printedLines, LiftedFunction.listingLines, h, Globals.closure, Globals.closureAfter,
    plainOptions]

/-- A function that returns a constant. -/
def soundLines : List String :=
  ["FUNCTION sound 0x400", "", "TABLE xpr", "1: c,1 |", "",
    "INSTRUCTIONS", "0x400 4 return | ; a:x | 1", ""]

/-- The characters of a fact file with such a function, one that is set aside and one whose lift
fails. -/
def mixedChars : List Char :=
  Text.joinLines (List.map String.toList (soundLines ++
    ["FUNCTION refused 0x500", "",
      "INSTRUCTIONS", "0x500 4 return | 7 ; a:x | 1", "",
      "FUNCTION stuck 0x600", "",
      "INSTRUCTIONS", "0x600 4 return | ; a:q | 1"]))

/-- What is read from characters is a program, if they are read to the end. -/
theorem load_ofList (chars : List Char) {P : ProgramFacts → Prop}
    (hok : (FactFile.readSections (FactFile.sectionsOfChars chars) {}).1 = none)
    (h : P (FactFile.readSections (FactFile.sectionsOfChars chars) {}).2.close.program) :
    ∃ p, (FactFile.load (String.ofList chars)).1 = .ok p ∧ P p := by
  have hread := congrArg (FactFile.readSections · {}) (FactFile.sections_ofList chars)
  exact ⟨_, FactFile.load_of_read hread hok, h⟩

/-- What is seen of the first function of a program: its lines, and whether its lift met a fault. -/
def firstSeen (p : ProgramFacts) : Option (List Nat × List String × Option Fault) := do
  let (outcome, w) ← firstLift? p
  let l ← outcome.toOption
  return (l.mentionedKeys, l.functionLines w.globals l.body.high, w.fault)

/-- The first function of a program is lifted, and these lines are printed for it. -/
def PrintsFirst (p : ProgramFacts) (lines : List String) : Prop :=
  ∃ f fs l w, p.functions = f :: fs ∧
    liftFunction (Config.ofFlags plainOptions.flags) p f (start p #[]) = (.ok l, w) ∧
    w.fault = none ∧ printedLines plainOptions w.globals l = lines

theorem printsFirst_of_seen {p : ProgramFacts} {lines : List String}
    (h : firstSeen p = some ([], lines, none)) : PrintsFirst p (lines ++ [""]) := by
  obtain ⟨⟨outcome, w⟩, hfirst, h⟩ := Option.bind_eq_some_iff.mp h
  obtain ⟨l, hl, h⟩ := Option.bind_eq_some_iff.mp h
  obtain ⟨f, hf, hlift⟩ := Option.map_eq_some_iff.mp hfirst
  obtain ⟨hkeys, rfl, hfault⟩ : l.mentionedKeys = [] ∧
      l.functionLines w.globals l.body.high = lines ∧ w.fault = none := by simpa using h
  obtain ⟨fs, hfs⟩ := List.head?_eq_some_iff.mp hf
  refine ⟨f, fs, l, w, hfs, hlift.trans ?_, hfault, printedLines_plain hkeys⟩
  cases outcome with
  | error e => cases hl
  | ok l' =>
    obtain rfl := Option.some.inj hl
    rfl

/-- The three functions, with files in memory. -/
theorem liftProgram_accounts_for_mixed :
    ∃ p, (FactFile.load (String.ofList mixedChars)).1 = .ok p ∧
      p.functions.map FunctionFacts.name = ["sound", "stuck"] ∧
      p.rejected.map Prod.fst = ["refused"] ∧
      PrintsFirst p ["int sound(void) \x7b", "  return 1;", "\x7d", ""] ∧
      (∃ drafts, FactFile.Accounted (FactFile.sections (String.ofList mixedChars)) p drafts) ∧
      (∃ run : StateM Memory (Batch plainOptions p p.functions (start p #[])),
        liftProgram memoryFiles plainOptions p #[] = run >>= fun b =>
          report memoryFiles plainOptions p b) ∧
      ∀ b : Batch plainOptions p p.functions (start p #[]), b.workspace.fault = none →
        b.lifted + (p.rejected.length + b.failed) = 3 := by
  obtain ⟨p, hload, ⟨hfunctions, hrejected⟩, hseen⟩ := load_ofList mixedChars
    (P := fun p => (p.functions.map FunctionFacts.name = ["sound", "stuck"] ∧
      p.rejected.map Prod.fst = ["refused"]) ∧
        firstSeen p = some ([], ["int sound(void) \x7b", "  return 1;", "\x7d"], none))
    (by decide +kernel) (by decide +kernel)
  have hcount : (FactFile.sections (String.ofList mixedChars)).countP
      FactFile.Section.isFunction = 3 := by
    rw [FactFile.sections_ofList]
    decide +kernel
  obtain ⟨haccounted, hrun, hadds⟩ :=
    liftProgram_accounts_for_functions memoryFiles plainOptions hload #[]
  exact ⟨p, hload, hfunctions, hrejected, printsFirst_of_seen hseen, haccounted, hrun,
    fun b hb => (hadds b hb).trans hcount⟩

/-- The characters of a fact file with such a function and one whose constant is the address in the
middle of an array that fills the memory: rows of `2 ^ 64 - 1` bytes. -/
def steepChars : List Char :=
  Text.joinLines (List.map String.toList (
    ["TYPES", "int ichar", "array 1 4294967295", "array 2 4294967297", "array 3 1", "",
      "GLOBALS", "row 4 0x0", ""] ++ soundLines ++
    ["FUNCTION steep 0x500", "", "TABLE xpr", "1: ga,-9223372036854775808 |", "",
      "INSTRUCTIONS", "0x500 4 return | ; a:x | 1"]))

/-- The function that returns a constant is lifted, and yet nothing is printed: the lift of the other
one divides the least word by minus one, and the run ends there. -/
theorem liftProgram_loses_sound :
    ∃ p, (FactFile.load (String.ofList steepChars)).1 = .ok p ∧
      p.functions.map FunctionFacts.name = ["sound", "steep"] ∧ p.rejected.map Prod.fst = [] ∧
      PrintsFirst p ["int sound(void) \x7b", "  return 1;", "\x7d", ""] ∧
      (plainRun p).exit = 101 ∧ (plainRun p).stdout = "" := by
  obtain ⟨p, hload, ⟨hfunctions, hrejected⟩, hseen, hexit, hstdout⟩ := load_ofList steepChars
    (P := fun p => (p.functions.map FunctionFacts.name = ["sound", "steep"] ∧
      p.rejected.map Prod.fst = []) ∧
        firstSeen p = some ([], ["int sound(void) \x7b", "  return 1;", "\x7d"], none) ∧
        (plainRun p).exit = 101 ∧ (plainRun p).stdout = "")
    (by decide +kernel) (by decide +kernel)
  exact ⟨p, hload, hfunctions, hrejected, printsFirst_of_seen hseen, hexit, hstdout⟩

end FactLift.Command
