import FactLift.Proofs.Lift.FieldSteps
import FactLift.Proofs.Symbols.LocalCalls

/-! How actions end.

A fault in a session stays there, whatever is done after it, so that of a sequence of actions is the
first that one of them meets (`ending_bind`). Lifting a value in an acyclic table meets no fault but
a quotient that is no word (`Steps.ending_ne_endless`). -/

namespace FactLift

open C

/-- A fault is kept, and another one may be added behind it. -/
theorem Session.Edit.fault {s s' : Session} (h : s.Edit s') :
    ∃ fault, s'.fault = s.fault.or fault := by
  cases h with
  | stop fault => exact ⟨fault, rfl⟩
  | _ => exact ⟨none, (Option.or_none).symm⟩

namespace LiftM

variable {α β : Type} {site : Site} {s : Session}

/-- How an action ends: with its result, or with the fault that is in the session then. -/
def ending (x : LiftM α) (site : Site) (s : Session) : Except Fault (α × Session) :=
  match (x site s).2.fault with
  | none => .ok (x site s)
  | some fault => .error fault

theorem ending_eq_ok {x : LiftM α} {result : α × Session} :
    ending x site s = .ok result ↔ x site s = result ∧ result.2.fault = none := by
  unfold ending
  constructor
  · intro h
    split at h
    next hfault =>
      obtain rfl := Except.ok.inj h
      exact ⟨rfl, hfault⟩
    next => cases h
  · rintro ⟨rfl, hfault⟩
    rw [hfault]

theorem ending_eq_error {x : LiftM α} {fault : Fault} :
    ending x site s = .error fault ↔ (x site s).2.fault = some fault := by
  unfold ending
  cases h : (x site s).2.fault with
  | none => exact iff_of_false nofun nofun
  | some fault' => exact ⟨fun h => congrArg some (Except.error.inj h),
      fun h => congrArg Except.error (Option.some.inj h)⟩

/-! ### Faults are kept -/

theorem Steps.fault {x : LiftM α} (hx : Steps x) (site : Site) (s : Session) :
    ∃ fault, (x site s).2.fault = s.fault.or fault := by
  have hedits := hx.edits site s
  generalize (x site s).2 = s' at hedits
  induction hedits with
  | refl => exact ⟨none, (Option.or_none).symm⟩
  | tail _ hedit ih =>
    obtain ⟨fault, hfault⟩ := ih
    obtain ⟨fault', hfault'⟩ := hedit.fault
    exact ⟨fault.or fault', by rw [hfault', hfault, Option.or_assoc]⟩

/-- After a fault nothing more happens. -/
theorem ending_bind {x : LiftM α} {f : α → LiftM β} (hf : ∀ a, Steps (f a)) :
    ending (x >>= f) site s =
      ending x site s >>= fun result => ending (f result.1) site result.2 := by
  cases hx : (x site s).2.fault with
  | none => rw [ending_eq_ok.mpr ⟨rfl, hx⟩]; rfl
  | some fault =>
    obtain ⟨later, hlater⟩ := (hf (x site s).1).fault site (x site s).2
    rw [ending_eq_error.mpr hx]
    exact ending_eq_error.mpr (hlater.trans (by rw [hx, Option.some_or]))

theorem ending_map {x : LiftM α} (f : α → β) :
    ending (do return f (← x)) site s = Prod.map f id <$> ending x site s := by
  rw [ending_bind fun a => .pure (f a)]
  cases h : ending x site s with
  | error fault => rfl
  | ok result =>
    obtain ⟨-, hfault⟩ := ending_eq_ok.mp h
    exact ending_eq_ok.mpr ⟨rfl, hfault⟩

/-! ### Lifts come to an end -/

theorem temporaryVariable_fault (name : String) (site : Site) (s : Session) :
    (temporaryVariable name site s).2.fault = s.fault := by
  rw [temporaryVariable]
  rcases Session.temporaryOfType_cases site name none s with ⟨v, -, hrun⟩ | ⟨-, hrun⟩
  all_goals rw [hrun]

theorem Steps.acyclic {x : LiftM α} (hx : Steps x) (hacyclic : s.globals.Acyclic) :
    (x site s).2.globals.Acyclic :=
  (hx.edits.sameTypes site s).acyclic hacyclic

/-- Lifting a value in an acyclic table comes to an end. -/
theorem Steps.fault_ne_endless {x : LiftM α} (hx : Steps x) (site : Site) {s : Session}
    (hacyclic : s.globals.Acyclic) (hs : s.fault ≠ some .endless) :
    (x site s).2.fault ≠ some .endless := by
  induction hx generalizing s with
  | bind hx _ ihx ihf => exact ihf _ (hx.acyclic hacyclic) (ihx hacyclic hs)
  | @attempt _ x fallback h =>
    have hends := h s.globals hacyclic
    show s.fault.or (Fault.of? (x s.globals)) ≠ some .endless
    cases hfault : s.fault with
    | some fault => rwa [Option.some_or, ← hfault]
    | none =>
      rw [Option.none_or]
      cases hx : x s.globals with
      | ok => exact nofun
      | error fault =>
        rw [hx] at hends
        exact fun h => hends (congrArg Except.error (Option.some.inj h))
  | temporary name => rwa [temporaryVariable_fault]
  | _ => exact hs

theorem Steps.ending_ne_endless {x : LiftM α} (hx : Steps x) (hacyclic : s.globals.Acyclic)
    (hs : s.fault = none) : ending x site s ≠ .error .endless := by
  rw [ne_eq, ending_eq_error]
  exact hx.fault_ne_endless site hacyclic (by rw [hs]; exact nofun)

end LiftM

end FactLift
