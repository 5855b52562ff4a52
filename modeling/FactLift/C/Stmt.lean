import FactLift.C.Same

/-! Instructions and statements.

The trees that the provenance of a function refers to carry a number: instructions, the two sides of
an assignment, the target and arguments of a call, returned values and conditions. Numbers play no
part in whether two trees are the same. -/

namespace FactLift.C

/-- A tree with the number under which the provenance knows it. -/
structure Tracked (α : Type) where
  id : Nat
  tree : α
deriving Repr

/-- What an instruction does. -/
inductive Action where
  | assign (target : Tracked Lval) (value : Tracked Expr)
  | call (target : Option (Tracked Lval)) (callee : Expr) (args : List (Tracked Expr))
  | asm (volatile : Bool) (templates : List String)
  /-- Nothing; the text says what was dropped. -/
  | nop (text : String)

/-- An instruction. -/
abbrev Instr := Tracked Action

/-- A label in front of a statement. -/
inductive Label where
  | plain (name : String)
  | case (value : Expr)
  | caseRange (low high : Expr)
  | default

mutual

/-- A statement with its labels. -/
structure Stmt where
  labels : List Label
  body : StmtBody

/-- A statement without its labels. -/
inductive StmtBody where
  | return (value : Option (Tracked Expr))
  | break
  | continue
  | loop (body : Stmt)
  | block (stmts : List Stmt)
  | instrs (is : List Instr)
  /-- A branch, with the address it leads to if it stands for a jump. -/
  | branch (cond : Tracked Expr) (thenBranch elseBranch : Stmt) (target : Option UInt64)
  | goto (label : String)
  | computedGoto (target : Expr)
  | switch (selector : Expr) (cases : Stmt)

end

instance : Inhabited Stmt := ⟨⟨[], .break⟩⟩

/-- A statement without labels. -/
def Stmt.ofBody (body : StmtBody) : Stmt := ⟨[], body⟩

/-- Whether two optional trees are the same, or are both left out. -/
def sameOption {α : Type} (same : α → α → Bool) : Option α → Option α → Bool
  | some a, some b => same a b
  | none, none => true
  | _, _ => false

/-- Whether two lists of trees are the same. -/
def sameList {α : Type} (same : α → α → Bool) : List α → List α → Bool
  | [], [] => true
  | a :: as, b :: bs => same a b && sameList same as bs
  | _, _ => false

/-- Whether two numbered trees are the same, whatever their numbers. -/
def Tracked.same {α : Type} (same : α → α → Bool) (a b : Tracked α) : Bool :=
  same a.tree b.tree

/-- Whether two instructions do the same. -/
def Action.same : Action → Action → Bool
  | .assign l e, .assign l' e' => l.same Lval.same l' && e.same Expr.same e'
  | .call t c as, .call t' c' as' =>
    sameOption (Tracked.same Lval.same) t t' && c.same c' &&
      sameList (Tracked.same Expr.same) as as'
  | .asm v ts, .asm v' ts' => v == v' && ts == ts'
  | .nop s, .nop s' => s == s'
  | _, _ => false

def Label.same : Label → Label → Bool
  | .plain n, .plain n' => n == n'
  | .case e, .case e' => e.same e'
  | .caseRange a b, .caseRange a' b' => a.same a' && b.same b'
  | .default, .default => true
  | _, _ => false

mutual

def Stmt.same : Stmt → Stmt → Bool
  | ⟨labels, body⟩, ⟨labels', body'⟩ => sameList Label.same labels labels' && body.same body'

/-- Whether two statements without their labels are the same. -/
def StmtBody.same : StmtBody → StmtBody → Bool
  | .return e, .return e' => sameOption (Tracked.same Expr.same) e e'
  | .break, .break => true
  | .continue, .continue => true
  | .loop s, .loop s' => s.same s'
  | .block ss, .block ss' => sameStmts ss ss'
  | .instrs is, .instrs is' => sameList (Tracked.same Action.same) is is'
  | .branch c t e a, .branch c' t' e' a' =>
    c.same Expr.same c' && t.same t' && e.same e' && a == a'
  | .goto l, .goto l' => l == l'
  | .computedGoto e, .computedGoto e' => e.same e'
  | .switch e s, .switch e' s' => e.same e' && s.same s'
  | _, _ => false

def sameStmts : List Stmt → List Stmt → Bool
  | [], [] => true
  | s :: ss, s' :: ss' => s.same s' && sameStmts ss ss'
  | _, _ => false

end

mutual

/-- The instructions of a statement, in program order. -/
def Stmt.instructions : Stmt → List Instr
  | ⟨_, body⟩ => body.instructions

/-- The instructions of a statement without its labels, in program order. -/
def StmtBody.instructions : StmtBody → List Instr
  | .instrs is => is
  | .block ss => instructionsOf ss
  | .loop s => s.instructions
  | .branch _ t e _ => t.instructions ++ e.instructions
  | .switch _ s => s.instructions
  | .return _ | .break | .continue | .goto _ | .computedGoto _ => []

/-- The instructions of a list of statements, in program order. -/
def instructionsOf : List Stmt → List Instr
  | [] => []
  | s :: rest => s.instructions ++ instructionsOf rest

end

end FactLift.C
