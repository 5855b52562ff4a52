import FactLift.Proofs.C.Stmt
import FactLift.Proofs.Lift.Run

/-! How the pieces of a function become the statements of its body.

A statement is made of consecutive pieces: one that is a statement itself, or a run of instructions
of which only the first can have a label (`Joins`). Group by group these are the pieces in order, so
what is read off the statements is what is read off the pieces, once that holds for one group
(`flatMap_assembleAfter`). The readings are the items with their labels, the instructions, and the plain
labels and gotos anywhere within the statements. -/

namespace FactLift

open C

/-- The pieces of a run of instructions that began with a label. -/
def runPieces (label : Option Label) : List (Forms Instr) → List Piece
  | [] => []
  | i :: run => ⟨label, .instr i⟩ :: run.map fun j => ⟨none, .instr j⟩

/-- The statement of a run of instructions that began with a label. -/
def runStmt (label : Option Label) (run : List (Forms Instr)) : Forms Stmt :=
  ⟨⟨[], .instrs (run.map (·.low))⟩, ⟨label.toList, .instrs (run.map (·.high))⟩⟩

/-- A statement whose high-level form has a label if there is one. -/
def Forms.underLabel (s : Forms Stmt) (label : Option Label) : Forms Stmt :=
  label.elim s fun l => labelled l s

/-- Pieces that are put together into one statement. -/
inductive Joins : List Piece → Forms Stmt → Prop
  | run (label : Option Label) (i : Forms Instr) (run : List (Forms Instr)) :
      Joins (runPieces label (i :: run)) (runStmt label (i :: run))
  | stmt (label : Option Label) (s : Forms Stmt) : Joins [⟨label, .stmt s⟩] (s.underLabel label)

/-- These statements are made of these pieces, taken in order. -/
def MadeOf (pieces : List Piece) (stmts : List (Forms Stmt)) : Prop :=
  ∃ groups : List (List Piece × Forms Stmt),
    groups.flatMap (·.1) = pieces ∧ groups.map (·.2) = stmts ∧ ∀ g ∈ groups, Joins g.1 g.2

namespace MadeOf

variable {pieces pieces' : List Piece} {stmts stmts' : List (Forms Stmt)}

theorem nil : MadeOf [] [] := ⟨[], rfl, rfl, by simp⟩

theorem append (h : MadeOf pieces stmts) (h' : MadeOf pieces' stmts') :
    MadeOf (pieces ++ pieces') (stmts ++ stmts') := by
  obtain ⟨groups, rfl, rfl, hjoins⟩ := h
  obtain ⟨groups', rfl, rfl, hjoins'⟩ := h'
  refine ⟨groups ++ groups', by simp, by simp, fun g hg => ?_⟩
  rcases List.mem_append.mp hg with hg | hg
  · exact hjoins g hg
  · exact hjoins' g hg

theorem single {s : Forms Stmt} (h : Joins pieces s) : MadeOf pieces [s] :=
  ⟨[(pieces, s)], by simp, rfl, by simpa using h⟩

/-- Every statement is joined from some of the pieces. -/
theorem joins (h : MadeOf pieces stmts) {s : Forms Stmt} (hs : s ∈ stmts) :
    ∃ group, (∀ piece ∈ group, piece ∈ pieces) ∧ Joins group s := by
  obtain ⟨groups, rfl, rfl, hjoins⟩ := h
  obtain ⟨g, hg, rfl⟩ := List.mem_map.mp hs
  exact ⟨g.1, fun piece hpiece => List.mem_flatMap.mpr ⟨g, hg, hpiece⟩, hjoins g hg⟩

end MadeOf

/-! ### Assembling -/

theorem sequence_madeOf (label : Option Label) (run : List (Forms Instr)) :
    MadeOf (runPieces label run) (sequence label.toList run) := by
  cases run with
  | nil => exact .nil
  | cons i run => exact .single (.run label i run)

theorem runPieces_append {label : Option Label} {run : List (Forms Instr)}
    (h : run = [] → label = none) (i : Forms Instr) :
    runPieces label (run ++ [i]) = runPieces label run ++ [⟨none, .instr i⟩] := by
  cases run with
  | nil => rw [h rfl]; rfl
  | cons j run => simp [runPieces]

theorem assembleAfter_madeOf (pieces : List Piece) (label : Option Label)
    (run : List (Forms Instr)) (h : run = [] → label = none) :
    MadeOf (runPieces label run ++ pieces) (assembleAfter label.toList run pieces) := by
  induction pieces generalizing label run with
  | nil =>
    rw [List.append_nil]
    exact sequence_madeOf label run
  | cons piece rest ih =>
    -- an instruction without a label goes on with the run; anything else closes it
    have hbefore := sequence_madeOf label run
    have hrest : MadeOf rest (assembleAfter [] [] rest) := ih none [] fun _ => rfl
    rcases piece with ⟨_ | l, i | s⟩
    · have hmore := ih label (run ++ [i]) (by simp)
      rwa [runPieces_append h, List.append_assoc] at hmore
    · exact hbefore.append ((MadeOf.single (.stmt none s)).append hrest)
    · exact hbefore.append (ih (some l) [i] (by simp))
    · exact hbefore.append ((MadeOf.single (.stmt (some l) s)).append hrest)

/-- The statements of a body are made of all its pieces. -/
theorem assemble_madeOf (pieces : List Piece) : MadeOf pieces (assembleAfter [] [] pieces) :=
  assembleAfter_madeOf pieces none [] fun _ => rfl

/-! ### Reading the statements -/

/-- Every piece is something that an operation can lift to. -/
def Fitting (pieces : List Piece) : Prop :=
  ∀ piece ∈ pieces, ∃ o, piece.lifted.Fits o

section Reading

variable {α : Type} {read : Forms Stmt → List α} {item : Piece → List α}
  (hrun : ∀ label i run, read (runStmt label (i :: run)) =
    item ⟨label, .instr i⟩ ++ run.flatMap fun j => item ⟨none, .instr j⟩)
  (hstmt : ∀ label s o, (Lifted.stmt s).Fits o → read (s.underLabel label) = item ⟨label, .stmt s⟩)
include hrun hstmt

theorem Joins.read_eq {group : List Piece} {s : Forms Stmt} (h : Joins group s)
    (hfits : Fitting group) : read s = group.flatMap item := by
  cases h with
  | run label i run => rw [hrun, runPieces, List.flatMap_cons, List.flatMap_map]
  | stmt label s =>
    obtain ⟨o, ho⟩ := hfits ⟨label, .stmt s⟩ (List.mem_singleton_self _)
    rw [hstmt label s o ho, List.flatMap_singleton]

/-- A reading that takes every run and every other statement apart into its pieces takes the body
apart into its pieces. -/
theorem flatMap_assembleAfter {pieces : List Piece} (hfits : Fitting pieces) :
    (assembleAfter [] [] pieces).flatMap read = pieces.flatMap item := by
  obtain ⟨groups, rfl, hstmts, hjoins⟩ := assemble_madeOf pieces
  rw [← hstmts, List.flatMap_map, List.flatMap_assoc]
  refine List.flatMap_congr fun g hg => (hjoins g hg).read_eq hrun hstmt fun piece hpiece => ?_
  exact hfits piece (List.mem_flatMap.mpr ⟨g, hg, hpiece⟩)

end Reading

namespace Lifted

def low : Lifted → Item
  | .instr i => .instr i.low
  | .stmt s => .stmt s.low.body

def high : Lifted → Item
  | .instr i => .instr i.high
  | .stmt s => .stmt s.high.body

/-- The labels that the gotos of either body lead to. -/
def gotos : Lifted → List String
  | .instr _ => []
  | .stmt s => s.high.gotos

def instr? : Lifted → Option (Forms Instr)
  | .instr i => some i
  | .stmt _ => none

end Lifted

variable {pieces : List Piece} (hfits : Fitting pieces)
include hfits

theorem items_low :
    (assembleAfter [] [] pieces).flatMap (·.low.items) =
      (pieces.map (·.lifted)).map Lifted.low := by
  rw [List.map_map, List.map_eq_flatMap]
  refine flatMap_assembleAfter (fun label i run => ?_) (fun label s o ho => ?_) hfits
  · simp [runStmt, Stmt.items, Lifted.low, ← List.map_eq_flatMap]
  · cases label <;> cases ho <;> rfl

/-- The labels of the high-level body stand in front of the instructions that they belong to. -/
theorem labelledItems_high :
    (assembleAfter [] [] pieces).flatMap (·.high.labelledItems) =
      pieces.map fun piece => (piece.label.toList, piece.lifted.high) := by
  rw [List.map_eq_flatMap]
  refine flatMap_assembleAfter (fun label i run => ?_) (fun label s o ho => ?_) hfits
  · simp [runStmt, Stmt.labelledItems, Stmt.items, Lifted.high, ← List.map_eq_flatMap]
  · cases label <;> cases ho <;> rfl

theorem items_high :
    (assembleAfter [] [] pieces).flatMap (·.high.items) =
      (pieces.map (·.lifted)).map Lifted.high := by
  have h := congrArg (List.map (·.2)) (labelledItems_high hfits)
  simpa [List.map_flatMap, Stmt.map_labelledItems, Function.comp_def] using h

theorem instructions_low :
    (assembleAfter [] [] pieces).flatMap (·.low.instructions) =
      (pieces.filterMap (·.lifted.instr?)).map (·.low) := by
  rw [List.map_filterMap, List.filterMap_eq_flatMap_toList]
  refine flatMap_assembleAfter (fun label i run => ?_) (fun label s o ho => ?_) hfits
  · simp [runStmt, Stmt.instructions, StmtBody.instructions, Lifted.instr?, ← List.map_eq_flatMap]
  · cases label <;> cases ho <;> rfl

theorem instructions_high :
    (assembleAfter [] [] pieces).flatMap (·.high.instructions) =
      (pieces.filterMap (·.lifted.instr?)).map (·.high) := by
  rw [List.map_filterMap, List.filterMap_eq_flatMap_toList]
  refine flatMap_assembleAfter (fun label i run => ?_) (fun label s o ho => ?_) hfits
  · simp [runStmt, Stmt.instructions, StmtBody.instructions, Lifted.instr?, ← List.map_eq_flatMap]
  · cases label <;> cases ho <;> rfl

/-- No statement within a statement has a label. -/
theorem plainLabels_high :
    (assembleAfter [] [] pieces).flatMap (·.high.plainLabels) =
      (pieces.map (·.label)).filterMap (·.bind Label.name?) := by
  rw [List.filterMap_map, List.filterMap_eq_flatMap_toList]
  refine flatMap_assembleAfter (fun label i run => ?_) (fun label s o ho => ?_) hfits
  · rcases label with _ | l
    · simp [runStmt, Stmt.plainLabels, Stmt.statements, StmtBody.statements]
    · cases hl : l.name? <;>
        simp [runStmt, Stmt.plainLabels, Stmt.statements, StmtBody.statements, hl]
  · rcases label with _ | l
    · cases ho <;> rfl
    · cases l <;> cases ho <;> rfl

/-- Labels stand on high-level statements alone. -/
theorem labels_low :
    (assembleAfter [] [] pieces).flatMap (fun s => s.low.statements.flatMap (·.labels)) = [] := by
  have hnone : (assembleAfter [] [] pieces).flatMap (fun s => s.low.statements.flatMap (·.labels)) =
      pieces.flatMap fun _ => [] := by
    refine flatMap_assembleAfter (fun label i run => ?_) (fun label s o ho => ?_) hfits
    · simp [runStmt, Stmt.statements, StmtBody.statements]
    · cases label <;> cases ho <;> rfl
  exact hnone.trans (by simp)

theorem gotos_low :
    (assembleAfter [] [] pieces).flatMap (·.low.gotos) = pieces.flatMap (·.lifted.gotos) := by
  refine flatMap_assembleAfter (fun label i run => ?_) (fun label s o ho => ?_) hfits
  · simp [runStmt, Stmt.gotos, Stmt.statements, StmtBody.statements, StmtBody.goto?, Lifted.gotos]
  · cases label <;> cases ho <;> rfl

theorem gotos_high :
    (assembleAfter [] [] pieces).flatMap (·.high.gotos) =
      pieces.flatMap (·.lifted.gotos) := by
  refine flatMap_assembleAfter (fun label i run => ?_) (fun label s o ho => ?_) hfits
  · simp [runStmt, Stmt.gotos, Stmt.statements, StmtBody.statements, StmtBody.goto?, Lifted.gotos]
  · cases label <;> cases ho <;> rfl

end FactLift
