import FactLift.Proofs.Lift.Run
import FactLift.Proofs.Symbols.Widening

/-! What lifting an instruction does to the local symbols.

Numbering trees and recording their provenance leaves the local symbols alone (`KeepsLocals`), and
lifting a value only widens them (`Widening`). The target of a definition may get the variable of its
definition on top of that, and a constant may be kept for it. All of this keeps sound symbols sound
(`KeepsSound`). They are sound when a function is entered (`FunctionFacts.entry_sound`), so they are
after every instruction of its run (`LiftRun.sound`). -/

namespace FactLift

open C

namespace LiftM

variable {α β : Type}

/-! ### Local symbols that stay -/

/-- An action that leaves the local symbols alone. -/
def KeepsLocals (x : LiftM α) : Prop :=
  ∀ (site : Site) (s : Session), (x site s).2.locals = s.locals

/-- An action that widens the local symbols. -/
def Widening (x : LiftM α) : Prop :=
  ∀ (site : Site) (s : Session), s.locals.Widens (x site s).2.locals

namespace KeepsLocals

theorem bind {x : LiftM α} {f : α → LiftM β} (hx : KeepsLocals x) (hf : ∀ a, KeepsLocals (f a)) :
    KeepsLocals (x >>= f) :=
  fun site s => (hf (x site s).1 site (x site s).2).trans (hx site s)

/-- What comes last does not matter. -/
theorem after {f : α → LiftM β} (hf : ∀ a, KeepsLocals (f a)) (x : LiftM α) (site : Site)
    (s : Session) : ((x >>= f) site s).2.locals = (x site s).2.locals :=
  hf (x site s).1 site (x site s).2

theorem afterTwo {γ : Type} {y : γ → LiftM α} {f : γ → α → LiftM β}
    (hf : ∀ c a, KeepsLocals (f c a)) (x : LiftM γ) (site : Site) (s : Session) :
    ((x >>= fun c => y c >>= f c) site s).2.locals = (y (x site s).1 site (x site s).2).2.locals :=
  after (hf (x site s).1) (y (x site s).1) site (x site s).2

theorem widening {x : LiftM α} (hx : KeepsLocals x) : Widening x :=
  fun site s => by rw [hx site s]; exact .refl s.locals

end KeepsLocals

theorem recordMapping_keepsLocals (f : Provenance → Provenance × Option Diagnostic) :
    KeepsLocals (recordMapping f) := by
  intro site s
  show ((f s.provenance).2.elim { s with provenance := (f s.provenance).1 } _).locals = s.locals
  cases (f s.provenance).2 <;> rfl

theorem linkExprs_keepsLocals (low high : Expr) : KeepsLocals (linkExprs low high) := by
  refine .bind (fun _ _ => rfl) fun l => .bind (fun _ _ => rfl) fun h => ?_
  refine .bind (fun _ _ => rfl) fun site => (recordMapping_keepsLocals _).bind fun _ _ _ => rfl

theorem linkLvals_keepsLocals (low high : Lval) : KeepsLocals (linkLvals low high) := by
  refine .bind (fun _ _ => rfl) fun l => .bind (fun _ _ => rfl) fun h => ?_
  refine .bind (fun _ _ => rfl) fun site => (recordMapping_keepsLocals _).bind fun _ _ _ => rfl

theorem linkInstrs_keepsLocals (actions : Forms Action) : KeepsLocals (linkInstrs actions) := by
  refine .bind (fun _ _ => rfl) fun l => .bind (fun _ _ => rfl) fun h => ?_
  refine .bind (fun _ _ => rfl) fun site => (recordMapping_keepsLocals _).bind fun _ _ _ => rfl

/-! ### Local symbols that widen -/

namespace Widening

theorem pure (a : α) : Widening (pure a : LiftM α) := fun _ s => .refl s.locals

theorem bind {x : LiftM α} {f : α → LiftM β} (hx : Widening x) (hf : ∀ a, Widening (f a)) :
    Widening (x >>= f) :=
  fun site s => (hx site s).trans (hf (x site s).1 site (x site s).2)

theorem map {x : LiftM α} (hx : Widening x) (f : α → β) : Widening (do return f (← x)) :=
  hx.bind fun _ => .pure _

end Widening

theorem Steps.widening {x : LiftM α} (hx : Steps x) : Widening x := hx.widens

theorem liftValue_widening (low high : Sym.Expr) (reaching : List Flow) :
    Widening (liftValue low high reaching) := by
  refine .bind (lowerExpr_steps low).widens fun l => .bind (liftExpr_steps high).widens fun h => ?_
  exact ((linkExprs_keepsLocals l h).bind fun _ _ _ => rfl).widening

theorem liftCondition_widening (low high : Sym.Expr) : Widening (liftCondition low high) := by
  refine .bind (lowerExpr_steps low).widens fun l => .bind (liftExpr_steps high).widens fun h => ?_
  exact ((linkExprs_keepsLocals l h).bind fun _ _ _ => rfl).widening

theorem liftArguments_widening (args : List Sym.Expr) : Widening (liftArguments args) := by
  induction args with
  | nil => exact .pure _
  | cons x rest ih =>
    refine .bind (fun _ s => .refl s.locals) fun reaching => ?_
    exact (liftValue_widening x x _).bind fun e => ih.map _

theorem liftReturn_widening (value : Option (Forms Sym.Expr)) : Widening (liftReturn value) := by
  cases value with
  | none => exact .pure _
  | some x =>
    refine .map (.map (.bind (fun _ s => .refl s.locals) fun reaching => ?_) some) _
    exact liftValue_widening x.low x.high reaching

theorem liftBranch_widening (target : UInt64) (cond : Option Sym.Expr) :
    Widening (liftBranch target cond) := by
  cases cond with
  | none => exact .pure _
  | some x => exact (liftCondition_widening x x).map _

/-! ### Definitions -/

/-- The local symbols after the target of a definition are those after its two forms. -/
theorem liftTarget_locals (v : Sym.Variable) (t : Option Ty) (hint : Option Sym.Expr) (site : Site)
    (s : Session) :
    (liftTarget v t hint site s).2.locals =
      (liftDefinition v t hint site (lowerLval v site s).2).2.locals := by
  refine KeepsLocals.afterTwo (y := fun _ => liftDefinition v t hint) (fun l h => ?_)
    (lowerLval v) site s
  refine (linkLvals_keepsLocals l h).bind fun forms => ?_
  cases h <;> exact fun _ _ => rfl

theorem ssaVariable_locals (r : String) (a : UInt64) (t : Option Ty) (site : Site) (s : Session) :
    (ssaVariable r a t site s).2.locals = (s.locals.ssaVariable r a t).2.2 := by
  refine KeepsLocals.after (fun found => ?_) (modifyGet _) site s
  obtain ⟨w, fresh⟩ := found
  cases fresh <;> exact fun _ _ => rfl

/-- A register gets the variable of its definition here, and nothing else is made up. -/
theorem liftDefinition_locals {v : Sym.Variable} {r : String} (hr : v.register? = some r)
    (hstack : Target.isStackPointer r = false) (t : Option Ty) (hint : Option Sym.Expr) {site : Site}
    (hssa : site.config.introduceSsa = true) (s : Session) :
    (liftDefinition v t hint site s).2.locals = (s.locals.ssaVariable r site.address t).2.2 := by
  simp only [liftDefinition, hr]
  show ((if site.config.introduceSsa && !Target.isStackPointer r then
    (do return .var (← ssaVariable r site.address t).1 .none) else _ : LiftM Lval) site s).2.locals = _
  rw [if_pos (by simp [hssa, hstack])]
  exact ssaVariable_locals r site.address t site s

/-- The local symbols with the constant that a definition is known to have, if there is one. -/
def keepConstant (l : Locals) (r : String) (a : UInt64) (value : Sym.Expr) : Locals :=
  match l.ssa? r a, value.simplify.fold with
  | some w, some c => l.setConstant w.name (.int (heldBy w.type c.value) .int)
  | _, _ => l

theorem recordConstant_locals {v : Sym.Variable} {r : String} (hr : v.register? = some r)
    (value : Sym.Expr) {site : Site} (hconstants : site.config.recordConstants = true)
    (s : Session) :
    (recordConstant v value site s).2.locals = keepConstant s.locals r site.address value := by
  simp only [recordConstant, keepConstant, hr, Option.bind_some]
  show ((if site.config.recordConstants = true then
    (match s.locals.ssa? r site.address, value.simplify.fold with
      | some w, some c => _
      | _, _ => _ : LiftM Unit) else _ : LiftM Unit) site s).2.locals = _
  rw [if_pos hconstants]
  cases s.locals.ssa? r site.address with
  | none => rfl
  | some w => cases value.simplify.fold <;> rfl

/-! ### Sound symbols -/

/-- An action that keeps sound local symbols sound. -/
def KeepsSound (x : LiftM α) : Prop :=
  ∀ (site : Site) (s : Session), s.locals.Sound → (x site s).2.locals.Sound

theorem Widening.keepsSound {x : LiftM α} (hx : Widening x) : KeepsSound x :=
  fun site s => (hx site s).sound

theorem KeepsLocals.keepsSound {x : LiftM α} (hx : KeepsLocals x) : KeepsSound x :=
  hx.widening.keepsSound

namespace KeepsSound

theorem bind {x : LiftM α} {f : α → LiftM β} (hx : KeepsSound x) (hf : ∀ a, KeepsSound (f a)) :
    KeepsSound (x >>= f) :=
  fun site s hs => hf (x site s).1 site (x site s).2 (hx site s hs)

theorem map {x : LiftM α} (hx : KeepsSound x) (f : α → β) : KeepsSound (do return f (← x)) :=
  hx.bind fun _ _ _ h => h

end KeepsSound

theorem ssaVariable_keepsSound (r : String) (a : UInt64) (t : Option Ty) :
    KeepsSound (ssaVariable r a t) := by
  intro site s hs
  rw [ssaVariable_locals]
  exact hs.ssaVariable r a t

theorem liftDefinition_keepsSound (v : Sym.Variable) (t : Option Ty) (hint : Option Sym.Expr) :
    KeepsSound (liftDefinition v t hint) := by
  have hlval := (Steps.widening (liftLval_steps v hint)).keepsSound
  refine .bind Steps.read.widening.keepsSound fun site => ?_
  split
  · split
    · exact (ssaVariable_keepsSound _ _ t).map _
    · exact hlval
  · exact hlval

theorem liftTarget_keepsSound (v : Sym.Variable) (t : Option Ty) (hint : Option Sym.Expr) :
    KeepsSound (liftTarget v t hint) := by
  intro site s hs
  rw [liftTarget_locals]
  exact liftDefinition_keepsSound v t hint site _ ((lowerLval_steps v).widening.keepsSound site s hs)

theorem recordConstant_keepsSound (v : Sym.Variable) (value : Sym.Expr) :
    KeepsSound (recordConstant v value) := by
  refine .bind Steps.read.widening.keepsSound fun site =>
    .bind Steps.locals.widening.keepsSound fun l => ?_
  split
  · split
    · refine .bind (Steps.note _).widening.keepsSound fun _ => ?_
      exact fun _ s hs => hs.setConstant _ _
    · exact fun _ _ => id
  · exact fun _ _ => id

theorem liftAssign_keepsSound (target : Sym.Variable) (low high : Sym.Expr)
    (hint : Option Sym.Expr) : KeepsSound (liftAssign target low high hint) := by
  refine .bind (fun _ _ => id) fun reaching => ?_
  refine .bind (liftValue_widening low high reaching).keepsSound fun value => ?_
  refine .bind Steps.globals.widening.keepsSound fun g => ?_
  refine .bind (liftTarget_keepsSound target _ hint) fun place => ?_
  exact .bind (recordConstant_keepsSound target high) fun _ => (linkInstrs_keepsLocals _).keepsSound

theorem liftCall_keepsSound (target : Option Sym.Variable) (name : Option String)
    (address : Option Sym.Expr) (args : List Sym.Expr) :
    KeepsSound (liftCall target name address args) := by
  refine .bind (liftCallee_steps name address).widening.keepsSound fun callee => ?_
  refine .bind (liftArguments_widening args).keepsSound fun args => .bind ?_ fun place =>
    (linkInstrs_keepsLocals _).keepsSound
  cases target with
  | none => exact fun _ _ => id
  | some v => exact (liftTarget_keepsSound v none none).map some

theorem sized_keepsSound (size : Nat) {x : LiftM (Forms Instr)} (hx : KeepsSound x) :
    KeepsSound (sized size x) :=
  .bind hx fun _ _ _ => id

/-- An action that may stop, and keeps sound local symbols sound also if it does. -/
def KeepsSoundOrStops (x : LiftE α) : Prop := KeepsSound x.run

namespace KeepsSoundOrStops

theorem lift {x : LiftM α} (hx : KeepsSound x) : KeepsSoundOrStops (liftM x : LiftE α) := hx

theorem throw (e : Error) : KeepsSoundOrStops (throw e : LiftE α) := fun _ _ => id

theorem bind {x : LiftM α} {f : α → LiftE β} (hx : KeepsSound x)
    (hf : ∀ a, KeepsSoundOrStops (f a)) : KeepsSoundOrStops (liftM x >>= f) :=
  KeepsSound.bind hx hf

theorem map {x : LiftM α} (hx : KeepsSound x) (f : α → β) :
    KeepsSoundOrStops (do return f (← x) : LiftE β) :=
  .bind hx fun _ _ _ => id

end KeepsSoundOrStops

/-- **The step.** Lifting an instruction keeps the local symbols sound, also if it stops. -/
theorem liftOperation_keepsSound (o : Operation) (r : Record) (d : Decoded) (size : Nat) :
    KeepsSoundOrStops (liftOperation o r d size) := by
  have hnop (text : String) : KeepsSound (sized size (liftNop text)) :=
    sized_keepsSound size (linkInstrs_keepsLocals _).keepsSound
  refine .bind Steps.read.widening.keepsSound fun site => ?_
  split
  · exact .lift (hnop _)
  split
  · exact .bind (fun _ _ => id) fun _ => .lift (hnop _)
  refine .bind (Steps.note _).widening.keepsSound fun _ => ?_
  split
  · unfold liftAssignment
    split
    · split
      · exact .lift (sized_keepsSound size (liftAssign_keepsSound _ _ _ _))
      · exact .throw _
    · exact .throw _
  · exact .lift (sized_keepsSound size (liftCall_keepsSound _ _ _ _))
  · exact .map (liftReturn_widening _).keepsSound _
  · split
    · rw [branchCondition?_bind]
      exact .map (liftBranch_widening _ _).keepsSound _
    · exact .throw _
  · exact .lift (hnop _)

end LiftM

/-! ### Runs -/

variable {cfg : Config} {cx : DecodeContext} {s s' : Session}

theorem foldl_note_locals (notes : List LogRecord) (s : Session) :
    (notes.foldl Session.note s).locals = s.locals := by
  induction notes generalizing s with
  | nil => rfl
  | cons r rest ih => exact ih (s.note r)

theorem liftInstruction_sound (i : InstructionFacts) (hs : s.locals.Sound) :
    (liftInstruction cfg cx i s).2.locals.Sound := by
  have hstart : ((decodeNotes cfg cx i.record).foldl Session.note s).locals.Sound := by
    rwa [foldl_note_locals]
  unfold liftInstruction
  dsimp only
  split
  · exact hstart
  · exact LiftM.liftOperation_keepsSound i.operation i.record _ i.size _ _ hstart

/-- **The run.** So does lifting any number of instructions. -/
theorem LiftRun.sound {is : List InstructionFacts} {ls : List Lifted} (h : LiftRun cfg cx s is ls s')
    (hs : s.locals.Sound) : s'.locals.Sound := by
  induction h with
  | nil => exact hs
  | @cons s _ _ i _ _ _ head _ ih =>
    have hnext : (liftInstruction cfg cx i s).2.locals.Sound := liftInstruction_sound i hs
    rw [head] at hnext
    exact ih hnext

theorem FunctionFacts.entry_sound (f : FunctionFacts) (w : Workspace) : (f.entry w).locals.Sound := by
  have hformals (formals : List Formal) (l : Locals) (hl : l.Sound) :
      (formals.foldl (fun l f => (l.addFormal f.name f.type f.location).2) l).Sound := by
    induction formals generalizing l with
    | nil => exact hl
    | cons f rest ih => exact ih _ (hl.addFormal f.name f.type f.location)
  exact hformals f.formals _ (Session.sound_start _ f.name)

end FactLift
