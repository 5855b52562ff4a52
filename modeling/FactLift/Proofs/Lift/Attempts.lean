import FactLift.Lift.High
import FactLift.Proofs.Symbols.Paths
import FactLift.Proofs.Symbols.Search

/-! What working something out gives, and what it leaves behind.

Sizes, paths, searches and moved pointers can end in a fault. The session then keeps the fault, and a
fallback takes the place of the result; nothing else in the session changes. In an acyclic table no
fault is `endless`. What a pointer that is moved by a constant can become is listed by
`MoveForm g op p e`. -/

namespace FactLift

open C

variable {cfg : Config} {g : Globals} {op : BinOp} {p e : Expr} {c : Int64}

/-! ### Moving by a constant -/

/-- What an expression that is moved by a constant can become. -/
inductive MoveForm (g : Globals) (op : BinOp) (p : Expr) : Expr → Prop
  | field {target : Ty} {bytes : Int64} {name : String} {key : Nat}
      (h : fieldStart? g target bytes = some (name, key)) :
      MoveForm g op p (.addressOf (.mem p (.field name key .none)))
  | elements (n : Int64) : MoveForm g op p (.binary op p (.int n .int))
  | bytes (n : Int64) :
      MoveForm g op p (.binary op (.cast (.pointer (.int .uchar)) p) (.int n .int))

theorem movePointer_form {target : Ty} (h : movePointer cfg g op p target c = .ok e) :
    MoveForm g op p e := by
  unfold movePointer at h
  dsimp only at h
  split at h
  next name key hstart =>
    obtain rfl := Except.ok.inj h
    split at hstart
    · exact .field hstart
    · cases hstart
  next =>
    obtain ⟨size, -, h⟩ := bind_eq_ok.mp h
    split at h
    · obtain rfl := Except.ok.inj h
      exact .elements c
    split at h
    · cases h
    split at h
    · obtain rfl := Except.ok.inj h
      exact .elements _
    split at h
    · obtain rfl := Except.ok.inj h
      exact .elements c
    · obtain rfl := Except.ok.inj h
      exact .bytes c

theorem moveBy_form (cfg : Config) (g : Globals) (op : BinOp) (p : Expr) (c : Int64) :
    MoveForm g op p (moveBy cfg g op p c) := by
  unfold moveBy
  cases h : movement cfg g op p c with
  | error fault => exact .elements c
  | ok e =>
    unfold movement at h
    split at h
    · exact movePointer_form h
    · obtain rfl := Except.ok.inj h
      exact .elements c

/-- In an acyclic table, moving a pointer comes to an end. -/
theorem movement_ne_endless (hg : g.Acyclic) : movement cfg g op p c ≠ .error .endless := by
  unfold movement
  split
  next =>
    unfold movePointer
    dsimp only
    split
    next => exact nofun
    next =>
      rw [Globals.sizing_eq_ok hg, ok_bind]
      repeat' split
      all_goals exact nofun
  next => exact nofun

/-! ### Results and sessions -/

namespace LiftM

variable {α : Type} {site : Site} {s : Session}

theorem bind_eq {β : Type} (x : LiftM β) (f : β → LiftM α) :
    (x >>= f) site s = f (x site s).1 site (x site s).2 := rfl

theorem globals_bind (f : Globals → LiftM α) :
    (globals >>= f) site s = f s.globals site s := rfl

theorem attempt_eq (x : Except Fault α) (fallback : α) :
    attempt x fallback site s = (x.toOption.getD fallback, s.stop (Fault.of? x)) := rfl

theorem followed_eq (host : Ty) (bytes : Int64) : followed host bytes site s =
    (s.globals.navigate host bytes, s.stop (Fault.of? (s.globals.navigation host bytes))) := by
  rw [followed, globals_bind, attempt_eq, Globals.navigate]

theorem sought_eq (a : UInt64) : sought a site s =
    (s.globals.containing? a, s.stop (Fault.of? (s.globals.search a))) := by
  rw [sought, globals_bind, attempt_eq]
  cases h : s.globals.search a with
  | error fault => rfl
  | ok found =>
    rw [Globals.containing?_of_search h]
    rfl

theorem measured_eq (t : Option Ty) : measured t site s =
    (t.bind s.globals.size?, s.stop (Fault.of? (t.elim (.ok none) s.globals.sizing))) := by
  rw [measured, globals_bind, attempt_eq]
  cases t <;> rfl

theorem moved_eq (op : BinOp) (p : Expr) (c : Int64) : moved op p c site s =
    (moveBy site.config s.globals op p c,
      s.stop (Fault.of? (movement site.config s.globals op p c))) := rfl

end LiftM

end FactLift
