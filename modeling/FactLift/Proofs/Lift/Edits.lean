import FactLift.Proofs.Lift.Steps
import Mathlib.Logic.Relation

/-! What lifting a value does to the session.

Lifting a value, in either form, makes up symbols, reports gaps and writes to the log. It numbers
nothing, hands out no dataflow facts and leaves the provenance alone. `Session.Edit` lists the single
changes and `Edits x` says that an action is a sequence of them; what each change keeps is then kept
by the lift of any value (`Steps.edits`) and of the target of a definition
(`liftDefinition_edits`). -/

namespace FactLift

open C

/-- A change that lifting a value makes to the session. -/
inductive Session.Edit : Session → Session → Prop
  | note (s : Session) (r : LogRecord) : Edit s (s.note r)
  | report (s : Session) (d : Diagnostic) (h : d.kind.isPlaceholder) : Edit s (s.report d)
  | locals (s : Session) (l : Locals) : Edit s { s with locals := l }
  | temporary (s : Session) (l : Locals) (t : Std.TreeMap String VarId) :
      Edit s { s with locals := l, temporaries := t }
  | stop (s : Session) (fault : Option Fault) : Edit s (s.stop fault)
  | global (s : Session) (v : Symbol) : Edit s { s with globals := (s.globals.addVariable v).2 }

namespace LiftM

variable {α β : Type}

/-- An action that changes the session by single edits only. -/
def Edits (x : LiftM α) : Prop :=
  ∀ site s, Relation.ReflTransGen Session.Edit s (x site s).2

/-! ### The rules -/

namespace Edits

theorem pure (a : α) : Edits (pure a : LiftM α) := fun _ _ => .refl

theorem bind {x : LiftM α} {f : α → LiftM β} (hx : Edits x) (hf : ∀ a, Edits (f a)) :
    Edits (x >>= f) :=
  fun site s => (hx site s).trans (hf (x site s).1 site (x site s).2)

/-- The result is wrapped into something else. -/
theorem map {x : LiftM α} (hx : Edits x) (f : α → β) : Edits (do return f (← x)) :=
  hx.bind fun _ => .pure _

theorem modifyGet {f : Session → α × Session}
    (h : ∀ s, Relation.ReflTransGen Session.Edit s (f s).2) : Edits (modifyGet f) :=
  fun _ s => h s

end Edits

/-! ### What lifting a value takes -/

theorem read_edits : Edits (read : LiftM Site) := fun _ _ => .refl

theorem globals_edits : Edits globals := fun _ _ => .refl

theorem locals_edits : Edits locals := fun _ _ => .refl

theorem note_edits (r : LogRecord) : Edits (note r) := fun _ s => .single (.note s r)

theorem localVariable_edits (f : Locals → VarId × Locals) : Edits (localVariable f) :=
  .modifyGet fun s => .single (.locals s (f s.locals).2)

theorem temporaryVariable_edits (name : String) : Edits (temporaryVariable name) := by
  refine .modifyGet fun s => ?_
  cases s.temporaries[name]? with
  | some v => exact .refl
  | none => exact .single (.temporary s _ _)

theorem lowerGlobal_edits (a : UInt64) : Edits (lowerGlobal a) := by
  refine .modifyGet fun s => ?_
  dsimp only
  split
  · exact .refl
  · exact .single (.global s _)

/-- Every step of lifting a value is a single edit at most. -/
theorem Steps.edits {x : LiftM α} (hx : Steps x) : Edits x := by
  induction hx with
  | pure a => exact .pure a
  | bind _ _ hx hf => exact hx.bind hf
  | read => exact read_edits
  | globals => exact globals_edits
  | locals => exact locals_edits
  | attempt => exact fun site s => .single (.stop s _)
  | note r => exact note_edits r
  | report message h => exact fun site s => .single (.report s ⟨some site.address, _, message⟩ h)
  | register | flag | slot | named => exact localVariable_edits _
  | temporary name => exact temporaryVariable_edits name
  | global v => exact .modifyGet fun s => .single (.global s v)
  | lowerGlobal a => exact lowerGlobal_edits a

/-! ### Definitions of registers -/

theorem ssaVariable_edits (register : String) (site : UInt64) (t : Option Ty) :
    Edits (ssaVariable register site t) := by
  refine (Edits.modifyGet fun s => ?_).bind fun found => ?_
  · exact .single (.locals s (s.locals.ssaVariable register site t).2.2)
  · obtain ⟨v, fresh⟩ := found
    cases fresh
    · exact .pure _
    · exact (note_edits _).bind fun _ => .pure _

theorem liftDefinition_edits (v : Sym.Variable) (t : Option Ty) (hint : Option Sym.Expr) :
    Edits (liftDefinition v t hint) := by
  refine read_edits.bind fun site => ?_
  split
  · split
    · exact (ssaVariable_edits _ _ t).map _
    · exact (liftLval_steps v hint).edits
  · exact (liftLval_steps v hint).edits

end LiftM

end FactLift
