import FactLift.C.Print

/-! Statements without the numbers of their nodes.

Numbers tie nodes to the provenance and are not part of the code: a statement prints as it does
without them (`Stmt.text_unnumbered`). -/

namespace FactLift.C

def Tracked.unnumbered {α : Type} (t : Tracked α) : Tracked α := ⟨0, t.tree⟩

/-- An action whose trees have no numbers. -/
def Action.unnumbered : Action → Action
  | .assign l e => .assign l.unnumbered e.unnumbered
  | .call target callee args =>
    .call (target.map Tracked.unnumbered) callee (args.map Tracked.unnumbered)
  | .asm volatile templates => .asm volatile templates
  | .nop text => .nop text

/-- An instruction without its number and those of its trees. -/
def unnumberedInstr (i : Instr) : Instr := ⟨0, i.tree.unnumbered⟩

mutual

/-- A statement without the numbers of its nodes. -/
def Stmt.unnumbered : Stmt → Stmt
  | ⟨labels, body⟩ => ⟨labels, body.unnumbered⟩

/-- A statement without its labels and the numbers of its nodes. -/
def StmtBody.unnumbered : StmtBody → StmtBody
  | .return value => .return (value.map Tracked.unnumbered)
  | .break => .break
  | .continue => .continue
  | .loop s => .loop s.unnumbered
  | .block ss => .block (unnumberedStmts ss)
  | .instrs is => .instrs (is.map unnumberedInstr)
  | .branch cond t e target => .branch cond.unnumbered t.unnumbered e.unnumbered target
  | .goto label => .goto label
  | .computedGoto e => .computedGoto e
  | .switch e s => .switch e s.unnumbered

/-- A list of statements without the numbers of their nodes. -/
def unnumberedStmts : List Stmt → List Stmt
  | [] => []
  | s :: rest => s.unnumbered :: unnumberedStmts rest

end

theorem unnumberedStmts_eq_map (ss : List Stmt) : unnumberedStmts ss = ss.map Stmt.unnumbered := by
  induction ss with
  | nil => rfl
  | cons s rest ih => rw [unnumberedStmts, ih, List.map_cons]

theorem Action.text_unnumbered (a : Action) : a.unnumbered.text = a.text := by
  cases a with
  | call target callee args =>
    cases target <;> simp [unnumbered, Action.text, Tracked.unnumbered, Function.comp_def]
  | assign | asm | nop => rfl

theorem Stmt.isEmpty_unnumbered (s : Stmt) : s.unnumbered.isEmpty = s.isEmpty := by
  obtain ⟨labels, body⟩ := s
  cases labels <;> cases body <;> try rfl
  next ss => cases ss <;> rfl

mutual

theorem Stmt.lines_unnumbered : ∀ (s : Stmt) (depth : Nat), s.unnumbered.lines depth = s.lines depth
  | ⟨labels, body⟩, depth => by
    rw [Stmt.unnumbered, Stmt.lines, Stmt.lines, StmtBody.lines_unnumbered body]

theorem StmtBody.lines_unnumbered :
    ∀ (b : StmtBody) (depth : Nat), b.unnumbered.lines depth = b.lines depth
  | .return value, depth => by
    cases value <;> rfl
  | .break, _ | .continue, _ | .goto _, _ | .computedGoto _, _ => rfl
  | .loop s, depth => by
    simp only [StmtBody.unnumbered, StmtBody.lines, Stmt.lines_unnumbered s]
  | .block ss, depth => by
    simp only [StmtBody.unnumbered, StmtBody.lines, linesOf_unnumbered ss]
  | .instrs is, depth => by
    simp [StmtBody.unnumbered, StmtBody.lines, unnumberedInstr, Action.text_unnumbered]
  | .branch cond t e _, depth => by
    simp only [StmtBody.unnumbered, StmtBody.lines, Stmt.lines_unnumbered t,
      Stmt.lines_unnumbered e, Stmt.isEmpty_unnumbered, Tracked.unnumbered]
  | .switch _ s, depth => by
    simp only [StmtBody.unnumbered, StmtBody.lines, Stmt.lines_unnumbered s]

theorem linesOf_unnumbered :
    ∀ (ss : List Stmt) (depth : Nat), linesOf (unnumberedStmts ss) depth = linesOf ss depth
  | [], _ => rfl
  | s :: rest, depth => by
    simp only [unnumberedStmts, linesOf, Stmt.lines_unnumbered s, linesOf_unnumbered rest]

end

/-- Numbers are not printed. -/
theorem Stmt.text_unnumbered (s : Stmt) (depth : Nat) : s.unnumbered.text depth = s.text depth := by
  rw [Stmt.text, Stmt.text, lines_unnumbered]

end FactLift.C
