import FactLift.C.Stmt

/-! Reading statements.

The items of a statement are the instructions of a sequence, or the statement itself; labels stand in
front of the first. Labels and gotos are also counted within statements. -/

namespace FactLift.C

/-! ### Items -/

/-- An instruction of a sequence, or any other statement without its labels. -/
inductive Item
  | instr (i : Instr)
  | stmt (body : StmtBody)

namespace Stmt

/-- The items of a statement: the instructions of a sequence, or the statement itself. -/
def items : Stmt → List Item
  | ⟨_, .instrs is⟩ => is.map .instr
  | ⟨_, body⟩ => [.stmt body]

/-- The items of a statement, each with the labels in front of it. -/
def labelledItems (s : Stmt) : List (List Label × Item) :=
  match s.items with
  | [] => []
  | first :: rest => (s.labels, first) :: rest.map fun x => ([], x)

theorem map_labelledItems (s : Stmt) : s.labelledItems.map (·.2) = s.items := by
  unfold labelledItems
  split
  next h => rw [h]; rfl
  next first rest h => simp [h, Function.comp_def]

end Stmt

/-! ### Statements within statements -/

mutual

/-- A statement and the statements within it. -/
def Stmt.statements : Stmt → List Stmt
  | ⟨labels, body⟩ => ⟨labels, body⟩ :: body.statements

def StmtBody.statements : StmtBody → List Stmt
  | .block ss => statementsOf ss
  | .loop s => s.statements
  | .branch _ t e _ => t.statements ++ e.statements
  | .switch _ s => s.statements
  | .instrs _ | .return _ | .break | .continue | .goto _ | .computedGoto _ => []

def statementsOf : List Stmt → List Stmt
  | [] => []
  | s :: rest => s.statements ++ statementsOf rest

end

def Label.name? : Label → Option String
  | .plain name => some name
  | _ => none

def StmtBody.goto? : StmtBody → Option String
  | .goto label => some label
  | _ => none

namespace Stmt

/-- The names of the plain labels in a statement, in the order of the text. -/
def plainLabels (s : Stmt) : List String :=
  s.statements.flatMap fun t => t.labels.filterMap Label.name?

/-- The labels that the gotos in a statement lead to, in the order of the text. -/
def gotos (s : Stmt) : List String :=
  s.statements.filterMap fun t => t.body.goto?

end Stmt

/-! ### Blocks -/

theorem statementsOf_eq_flatMap (ss : List Stmt) : statementsOf ss = ss.flatMap Stmt.statements := by
  induction ss with
  | nil => rfl
  | cons s rest ih => rw [statementsOf, ih, List.flatMap_cons]

theorem instructionsOf_eq_flatMap (ss : List Stmt) :
    instructionsOf ss = ss.flatMap Stmt.instructions := by
  induction ss with
  | nil => rfl
  | cons s rest ih => rw [instructionsOf, ih, List.flatMap_cons]

section Block

variable (ss : List Stmt)

theorem instructions_block :
    (Stmt.ofBody (.block ss)).instructions = ss.flatMap Stmt.instructions :=
  instructionsOf_eq_flatMap ss

theorem plainLabels_block : (Stmt.ofBody (.block ss)).plainLabels = ss.flatMap Stmt.plainLabels := by
  show ([] : List String) ++ (statementsOf ss).flatMap _ = _
  rw [statementsOf_eq_flatMap, List.nil_append, List.flatMap_assoc]
  rfl

theorem gotos_block : (Stmt.ofBody (.block ss)).gotos = ss.flatMap Stmt.gotos := by
  show (statementsOf ss).filterMap _ = _
  rw [statementsOf_eq_flatMap, List.filterMap_flatMap]
  rfl

end Block

end FactLift.C
