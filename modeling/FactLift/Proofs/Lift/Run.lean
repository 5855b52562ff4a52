import FactLift.Lift.Function
import FactLift.Proofs.Lift.Operation
import Mathlib.Data.List.Forall2

/-! Lifting the instructions of a function one after the other.

`LiftRun` is what a lift goes through: each instruction lifts to something, and leaves a session to
the next. A function that lifts has such a run, and its body is put together from what the run gave
(`liftFunction_run`). Every instruction of the run is an entry of the provenance at its end
(`LiftRun.tracks`), and resolving the dataflow facts does not touch the entries. -/

namespace FactLift

open C

/-- Instructions, what each lifts to, and the sessions before the first and after the last. -/
inductive LiftRun (cfg : Config) (cx : DecodeContext) :
    Session → List InstructionFacts → List Lifted → Session → Prop
  | nil (s : Session) : LiftRun cfg cx s [] [] s
  | cons {s s' s'' : Session} {i : InstructionFacts} {is : List InstructionFacts} {l : Lifted}
      {ls : List Lifted} (head : liftInstruction cfg cx i s = (.ok l, s'))
      (tail : LiftRun cfg cx s' is ls s'') : LiftRun cfg cx s (i :: is) (l :: ls) s''

/-- The label that an instruction carries if branches lead to these addresses. -/
def InstructionFacts.label? (targets : List UInt64) (i : InstructionFacts) : Option Label :=
  if targets.contains i.address then some (.plain (addressLabel i.address)) else none

/-- What instructions lifted to, with their labels. -/
def piecesOf (targets : List UInt64) (is : List InstructionFacts) (ls : List Lifted) : List Piece :=
  (is.zip ls).map fun (i, l) => ⟨i.label? targets, l⟩

/-- Those of the instructions that stayed instructions, with where they come from. -/
def tracedOf (is : List InstructionFacts) (ls : List Lifted) : List Traced :=
  (is.zip ls).flatMap fun (i, l) => l.traced i.address i.size

variable {cfg : Config} {cx : DecodeContext}

/-! ### The step -/

theorem liftInstruction_step {i : InstructionFacts} {s s' : Session} {l : Lifted}
    (h : liftInstruction cfg cx i s = (.ok l, s')) :
    l.Fits i.operation ∧
      ∀ entries, s.Tracks entries → s'.Tracks (entries ++ l.traced i.address i.size) := by
  have hnotes : ∀ (notes : List LogRecord) (s : Session) (entries : List Traced),
      s.Tracks entries → (notes.foldl Session.note s).Tracks entries := by
    intro notes
    induction notes with
    | nil => exact fun _ _ hs => hs
    | cons r rest ih => exact fun s entries hs => ih _ entries (hs.edits (.single (.note s r)))
  unfold liftInstruction at h
  dsimp only at h
  split at h
  · cases h
  next d _ =>
    let site : Site := ⟨cfg, i.address, d.reachingDefs.filterMap Fact.value?⟩
    let start : Session :=
      { (decodeNotes cfg cx i.record).foldl Session.note s with pending := .ofDecoded d }
    have hrun : (LiftM.liftOperation i.operation i.record d i.size).run site start = (.ok l, s') := h
    have hstep := LiftM.liftOperation_lifts i.operation i.record d i.size site start l
    rw [hrun] at hstep
    obtain ⟨hfits, htracks⟩ := hstep rfl
    refine ⟨hfits, fun entries hs => htracks entries ?_⟩
    have hstart := hnotes (decodeNotes cfg cx i.record) s entries hs
    exact ⟨hstart.records, hstart.exprs, hstart.lvals, hstart.clean⟩

/-! ### The run -/

namespace LiftRun

variable {s s' : Session} {is : List InstructionFacts} {ls : List Lifted}

theorem fits (h : LiftRun cfg cx s is ls s') :
    List.Forall₂ (fun i l => l.Fits i.operation) is ls := by
  induction h with
  | nil => exact .nil
  | cons head _ ih => exact .cons (liftInstruction_step head).1 ih

/-- The instructions of a run are tracked behind those that were tracked before. -/
theorem tracks (h : LiftRun cfg cx s is ls s') {entries : List Traced} (hs : s.Tracks entries) :
    s'.Tracks (entries ++ tracedOf is ls) := by
  induction h generalizing entries with
  | nil => simpa [tracedOf] using hs
  | cons head _ ih =>
    have hrest := ih ((liftInstruction_step head).2 entries hs)
    rwa [List.append_assoc] at hrest

end LiftRun

theorem liftInstructions_run {targets : List UInt64} {is : List InstructionFacts} {s s' : Session}
    {pieces : List Piece} (h : liftInstructions cfg cx targets is s = (.ok pieces, s')) :
    ∃ ls, LiftRun cfg cx s is ls s' ∧ pieces = piecesOf targets is ls := by
  induction is generalizing s pieces with
  | nil =>
    cases h
    exact ⟨[], .nil _, rfl⟩
  | cons i rest ih =>
    unfold liftInstructions at h
    split at h
    · cases h
    next l s₁ hhead =>
      rcases hrest : liftInstructions cfg cx targets rest s₁ with ⟨result, s₂⟩
      rw [hrest] at h
      cases result with
      | error e => cases h
      | ok others =>
        cases h
        obtain ⟨ls, hrun, rfl⟩ := ih hrest
        exact ⟨l :: ls, .cons hhead hrun, rfl⟩

/-! ### Finishing -/

namespace Session

theorem foldl_report (ds : List Diagnostic) (s : Session) :
    (ds.foldl Session.report s).provenance = s.provenance ∧
      (ds.foldl Session.report s).diagnostics = s.diagnostics ++ ds := by
  induction ds generalizing s with
  | nil => simp
  | cons d rest ih =>
    obtain ⟨hprovenance, hdiagnostics⟩ := ih (s.report d)
    exact ⟨hprovenance, by rw [List.foldl_cons, hdiagnostics]; simp [report]⟩

theorem finish_provenance (s : Session) (body : Forms Stmt) :
    (s.finish body).1.provenance = s.provenance.resolve.1 := by
  simp only [finish, note, foldl_report]

theorem finish_diagnostics (s : Session) (body : Forms Stmt) :
    (s.finish body).1.diagnostics = s.diagnostics ++ s.provenance.resolve.2 := by
  simp only [finish, note, foldl_report]

end Session

/-- Whatever resolving reports is an address without an instruction. -/
theorem Provenance.kind_of_mem_resolve {p : Provenance} {d : Diagnostic} (h : d ∈ p.resolve.2) :
    d.kind = .unresolvedValue := by
  have hdangling : ∀ what f, d ∈ p.danglingOf what f → d.kind = .unresolvedValue := by
    intro what f hd
    obtain ⟨a, _, rfl⟩ := List.mem_map.mp hd
    rfl
  rcases List.mem_append.mp h with h | h
  · rcases List.mem_append.mp h with h | h
    · obtain ⟨_, _, hd⟩ := List.mem_flatMap.mp h
      exact hdangling _ _ hd
    · obtain ⟨_, _, hd⟩ := List.mem_flatMap.mp h
      exact hdangling _ _ hd
  · obtain ⟨_, _, hd⟩ := List.mem_flatMap.mp h
    exact hdangling _ _ hd

/-! ### Functions -/

/-- The session in which the first instruction of a function is lifted. -/
def FunctionFacts.entry (f : FunctionFacts) (w : Workspace) : Session :=
  Session.enter
    (w.note ⟨.info, "Lifting function", [("function", f.name), ("address", Text.hex f.address.toNat)]⟩)
    f.name f.formals

theorem FunctionFacts.entry_tracks (f : FunctionFacts) (w : Workspace) : (f.entry w).Tracks [] := by
  let w' := w.note
    ⟨.info, "Lifting function", [("function", f.name), ("address", Text.hex f.address.toNat)]⟩
  have h := Session.tracks_start w' f.name
  exact ⟨h.records, h.exprs, h.lvals, h.clean⟩

variable {p : ProgramFacts} {f : FunctionFacts} {w w' : Workspace} {lifted : LiftedFunction}

/-- A function that lifts has a run, and is put together from what the run gave. -/
theorem liftFunction_run (h : liftFunction cfg p f w = (.ok lifted, w')) :
    ∃ ls s, LiftRun cfg (p.context f) (f.entry w) f.instructions ls s ∧
      lifted.body = assemble (piecesOf f.branchTargets f.instructions ls) ∧
      lifted.provenance = s.provenance.resolve.1 ∧
      lifted.diagnostics = s.diagnostics ++ s.provenance.resolve.2 := by
  unfold liftFunction at h
  dsimp only at h
  split at h
  · cases h
  next pieces s hrun =>
    obtain ⟨ls, hls, rfl⟩ := liftInstructions_run hrun
    cases h
    exact ⟨ls, s, hls, rfl, s.finish_provenance _, s.finish_diagnostics _⟩

end FactLift
