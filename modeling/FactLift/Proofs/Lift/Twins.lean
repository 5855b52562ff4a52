import FactLift.Lift.Instruction
import FactLift.Proofs.Lift.ApplyForm
import FactLift.Proofs.Lift.Attempts
import FactLift.Proofs.Provenance.Shift
import FactLift.Proofs.Sym.Lookups
import FactLift.Proofs.Symbols.LocalCalls

/-! Lifting a value twice, over different global symbols.

A `Pairing` compares two lifts of the same facts that start in different workspaces. Their sessions
are twins if they are the same but for the global symbols, which answer alike, and for the numbers
of nodes. An action agrees on twins if it gives the same on both and leaves twins behind; the log
plays no part.

Lifting a value agrees if the questions that the value leads to are among those on which the global
symbols answer alike (`liftExpr_same`, `liftLval_same`, `liftDefinition_same`, `lowerExpr_same`,
`lowerLval_same`). -/

namespace FactLift

open C

/-- Two lifts of the same facts: the questions that the facts lead to, and where the lifts start. -/
structure Pairing where
  asks : List Lookup
  left : Workspace
  right : Workspace

def Workspace.numbers (w : Workspace) : Numbers :=
  ⟨w.nextInstr, w.nextExpr, w.nextLval⟩

namespace Pairing

variable (c : Pairing)

/-- The sessions of two lifts that did the same so far. -/
structure Twins (s s' : Session) : Prop where
  globals : s.globals.Alike c.asks s'.globals
  made : c.left.globals.Made c.asks s.globals
  locals : s.locals = s'.locals
  temporaries : s.temporaries = s'.temporaries
  diagnostics : s.diagnostics = s'.diagnostics
  pending : s.pending = s'.pending
  provenance : Provenance.Shifted c.left.numbers c.right.numbers s.numbers s'.numbers s.provenance
    s'.provenance

/-- Two actions that give related results and leave twins behind. -/
def Agrees {α : Type} (R : α → α → Prop) (x x' : LiftM α) : Prop :=
  ∀ site s s', c.Twins s s' → R (x site s).1 (x' site s').1 ∧ c.Twins (x site s).2 (x' site s').2

/-- An action that gives the same on twins. -/
def Same {α : Type} (x : LiftM α) : Prop :=
  c.Agrees Eq x x

variable {c} {α β : Type}

/-! ### The rules -/

namespace Agrees

variable {R : α → α → Prop} {R' : β → β → Prop}

theorem pure {a a' : α} (h : R a a') : c.Agrees R (pure a) (pure a') := fun _ _ _ hs => ⟨h, hs⟩

theorem bind {x x' : LiftM α} {f f' : α → LiftM β} (hx : c.Agrees R x x')
    (hf : ∀ a a', R a a' → c.Agrees R' (f a) (f' a')) : c.Agrees R' (x >>= f) (x' >>= f') :=
  fun site s s' hs => hf _ _ (hx site s s' hs).1 site _ _ (hx site s s' hs).2

/-- What follows may use that the global symbols answer alike. -/
theorem globals {f f' : Globals → LiftM β}
    (hf : ∀ g g' : Globals, g.Alike c.asks g' → c.Agrees R' (f g) (f' g')) :
    c.Agrees R' (LiftM.globals >>= f) (LiftM.globals >>= f') :=
  fun site s s' hs => hf _ _ hs.globals site s s' hs

end Agrees

namespace Same

theorem pure (a : α) : c.Same (pure a : LiftM α) := Agrees.pure rfl

theorem bind {x : LiftM α} {f : α → LiftM β} (hx : c.Same x) (hf : ∀ a, c.Same (f a)) :
    c.Same (x >>= f) :=
  Agrees.bind hx fun a _ h => h ▸ hf a

/-- The result is wrapped into something else. -/
theorem map {x : LiftM α} (hx : c.Same x) (f : α → β) : c.Same (do return f (← x)) :=
  hx.bind fun _ => .pure _

theorem modifyGet {f : Session → α × Session}
    (h : ∀ s s', c.Twins s s' → (f s).1 = (f s').1 ∧ c.Twins (f s).2 (f s').2) :
    c.Same (modifyGet f) :=
  fun _ s s' hs => h s s' hs

/-- What follows uses only what global symbols that answer alike have in common. -/
theorem globals {f : Globals → LiftM β}
    (hf : ∀ g g' : Globals, g.Alike c.asks g' → f g = f g') (hk : ∀ g, c.Same (f g)) :
    c.Same (LiftM.globals >>= f) :=
  Agrees.globals fun g g' hg => hf g g' hg ▸ hk g

end Same

/-! ### The actions that everything is made of -/

theorem Twins.withLocals {s s' : Session} (h : c.Twins s s') (l : Locals) :
    c.Twins { s with locals := l } { s' with locals := l } :=
  ⟨h.globals, h.made, rfl, h.temporaries, h.diagnostics, h.pending, h.provenance⟩

theorem Twins.modifyLocals {s s' : Session} (h : c.Twins s s') (f : Locals → Locals) :
    c.Twins { s with locals := f s.locals } { s' with locals := f s'.locals } := by
  rw [h.locals]
  exact h.withLocals _

theorem Twins.withGlobals {s s' : Session} (h : c.Twins s s') {g g' : Globals}
    (hg : g.Alike c.asks g') (hmade : s.globals.Made c.asks g) :
    c.Twins { s with globals := g } { s' with globals := g' } :=
  ⟨hg, h.made.trans hmade, h.locals, h.temporaries, h.diagnostics, h.pending, h.provenance⟩

theorem Twins.report {s s' : Session} (h : c.Twins s s') (d : Diagnostic) :
    c.Twins (s.report d) (s'.report d) :=
  ⟨h.globals, h.made, h.locals, h.temporaries, congrArg (· ++ [d]) h.diagnostics, h.pending,
    h.provenance⟩

/-- Faults are not compared. -/
theorem Twins.stop {s s' : Session} (h : c.Twins s s') (fault fault' : Option Fault) :
    c.Twins (s.stop fault) (s'.stop fault') :=
  ⟨h.globals, h.made, h.locals, h.temporaries, h.diagnostics, h.pending, h.provenance⟩

theorem read_same : c.Same (read : LiftM Site) := fun _ _ _ hs => ⟨rfl, hs⟩

theorem locals_same : c.Same LiftM.locals := fun _ _ _ hs => ⟨hs.locals, hs⟩

theorem note_same (r : LogRecord) : c.Same (LiftM.note r) := fun _ _ _ hs =>
  ⟨rfl, hs.globals, hs.made, hs.locals, hs.temporaries, hs.diagnostics, hs.pending, hs.provenance⟩

theorem report_same (kind : DiagnosticKind) (message : String) :
    c.Same (LiftM.report kind message) := fun _ _ _ hs => ⟨rfl, hs.report _⟩

theorem followed_same (host : Ty) (bytes : Int64) : c.Same (LiftM.followed host bytes) := by
  intro site s s' hs
  rw [LiftM.followed_eq, LiftM.followed_eq]
  exact ⟨hs.globals.navigate host bytes, hs.stop _ _⟩

theorem measured_same (t : Option Ty) : c.Same (LiftM.measured t) := by
  intro site s s' hs
  rw [LiftM.measured_eq, LiftM.measured_eq]
  exact ⟨by rw [funext hs.globals.size?], hs.stop _ _⟩

theorem moved_same (op : BinOp) (p : Expr) (k : Int64) : c.Same (LiftM.moved op p k) := by
  intro site s s' hs
  rw [LiftM.moved_eq, LiftM.moved_eq]
  exact ⟨hs.globals.moveBy site.config op p k, hs.stop _ _⟩

theorem unresolvedExpr_same (kind : DiagnosticKind) (reason : String) :
    c.Same (LiftM.unresolvedExpr kind reason) :=
  (report_same kind reason).map _

theorem unresolvedOffset_same (reason : String) : c.Same (LiftM.unresolvedOffset reason) :=
  (report_same _ reason).map _

theorem localVariable_same (f : Locals → VarId × Locals) : c.Same (LiftM.localVariable f) := by
  intro site s s' hs
  refine ⟨?_, hs.modifyLocals fun l => (f l).2⟩
  show (f s.locals).2.get (f s.locals).1 = (f s'.locals).2.get (f s'.locals).1
  rw [hs.locals]

theorem temporaryVariable_same (name : String) : c.Same (LiftM.temporaryVariable name) := by
  intro site s s' hs
  have htable := hs.temporaries
  unfold LiftM.temporaryVariable
  rcases Session.temporaryOfType_cases site name none s with ⟨v, hv, hrun⟩ | ⟨hv, hrun⟩
  · rw [htable] at hv
    rw [hrun, Session.temporaryOfType_again site hv none]
    exact ⟨by rw [hs.locals], hs⟩
  · rw [htable] at hv
    rcases Session.temporaryOfType_cases site name none s' with ⟨v', hv', -⟩ | ⟨-, hrun'⟩
    · rw [hv] at hv'
      cases hv'
    · rw [hrun, hrun', hs.locals, htable]
      exact ⟨rfl, hs.globals, hs.made, rfl, rfl, hs.diagnostics, hs.pending, hs.provenance⟩

theorem ssaVariable_same (register : String) (site : UInt64) (t : Option Ty) :
    c.Same (LiftM.ssaVariable register site t) := by
  refine (Same.modifyGet fun s s' hs => ?_).bind fun found => ?_
  · exact ⟨by simp only [hs.locals], hs.modifyLocals fun l => (l.ssaVariable register site t).2.2⟩
  · obtain ⟨v, fresh⟩ := found
    cases fresh
    · exact .pure _
    · exact (note_same _).bind fun _ => .pure _

/-- The address of a made-up variable is made up with it. -/
theorem slotAddress_same (offset : Int64) : c.Same (LiftM.slotAddress offset) :=
  (localVariable_same _).map _

/-- Asking for the variable that an access goes to. -/
theorem globalAt_same {a : UInt64} (ha : .access a ∈ c.asks) : c.Same (LiftM.globalAt a) := by
  have hrun (site : Site) (s : Session) : ∃ fault, LiftM.globalAt a site s =
      ((s.globals.accessed a).1, { s.stop fault with globals := (s.globals.accessed a).2 }) := by
    refine ⟨Fault.of? (s.globals.search a), ?_⟩
    rw [LiftM.globalAt, LiftM.bind_eq, LiftM.sought_eq, Globals.accessed]
    cases s.globals.containing? a <;> rfl
  intro site s s' hs
  obtain ⟨hanswer, halike⟩ := hs.globals.accessed ha
  obtain ⟨fault, hrun₁⟩ := hrun site s
  obtain ⟨fault', hrun₂⟩ := hrun site s'
  rw [hrun₁, hrun₂]
  exact ⟨hanswer, (hs.stop fault fault').withGlobals halike (Globals.made_accessed ha _)⟩

theorem lowerGlobal_same {a : UInt64} (ha : .access a ∈ c.asks) : c.Same (LiftM.lowerGlobal a) := by
  intro site s s' hs
  obtain ⟨hanswer, halike⟩ := hs.globals.located ha
  exact ⟨hanswer, hs.withGlobals halike (Globals.made_located ha _)⟩

theorem functionNamed_same {name : String} (hname : .function name ∈ c.asks) :
    c.Same (LiftM.functionNamed name) := by
  refine locals_same.bind fun l => ?_
  split
  · exact .pure _
  · refine Same.map ?_ _
    intro site s s' hs
    obtain ⟨hanswer, halike⟩ := hs.globals.called hname
    exact ⟨hanswer, hs.withGlobals halike (Globals.made_called hname _)⟩

/-! ### High-level lifting -/

theorem registerUse_same (register : String) : c.Same (LiftM.registerUse register) := by
  refine read_same.bind fun site => locals_same.bind fun l => ?_
  dsimp only
  split
  · exact .pure _
  · exact localVariable_same _

theorem along_same (host : Ty) (bytes : Int64) {rest : Ty → LiftM Offset}
    (hrest : ∀ t, c.Same (rest t)) : c.Same (LiftM.along host bytes rest) := by
  refine (followed_same host bytes).bind fun path => ?_
  split
  · exact (hrest _).map _
  · exact (unresolvedOffset_same _).map _

theorem sought_same {a : UInt64} (ha : .constant a ∈ c.asks) : c.Same (LiftM.sought a) := by
  intro site s s' hs
  rw [LiftM.sought_eq, LiftM.sought_eq]
  exact ⟨hs.globals.answers _ ha, hs.stop _ _⟩

theorem liftAddress_same {a : UInt64} (ha : .constant a ∈ c.asks) :
    c.Same (LiftM.liftAddress a) := by
  refine (sought_same ha).bind fun found => ?_
  split
  · exact .pure _
  · dsimp only
    split
    · exact .pure _
    · split
      · exact (along_same _ _ fun _ => .pure _).map _
      · exact (unresolvedOffset_same _).map _

theorem liftConstant_same {k : Sym.Constant} (hk : k.lookups ⊆ c.asks) :
    c.Same (LiftM.liftConstant k) := by
  unfold LiftM.liftConstant
  split
  · exact .pure _
  · exact .pure _
  · exact liftAddress_same (hk (List.mem_singleton_self _))

theorem liftInitialRegister_same (register : String) :
    c.Same (LiftM.liftInitialRegister register) := by
  unfold LiftM.liftInitialRegister
  split
  · exact slotAddress_same 0
  · refine locals_same.bind fun l => ?_
    split
    · exact .pure _
    · exact (localVariable_same _).map _

theorem liftReturnValue_same (name : String) (callSite : UInt64) (callee : Option String) :
    c.Same (LiftM.liftReturnValue name callSite callee) := by
  refine locals_same.bind fun l => ?_
  split
  · exact .pure _
  · exact (localVariable_same _).map _
  · exact unresolvedExpr_same _ _

theorem stackFormal?_same (v : Sym.Variable) : c.Same (LiftM.stackFormal? v) := by
  unfold LiftM.stackFormal?
  split
  · split
    · exact .pure _
    · exact locals_same.map _
  · exact .pure _

theorem placed_same (place : Except String Lval) : c.Same (LiftM.placed place) := by
  cases place with
  | ok l => exact .pure l
  | error reason => exact (unresolvedExpr_same _ reason).map _

theorem combined_same (op : Sym.Op) (args : List Expr) : c.Same (LiftM.combined op args) := by
  unfold LiftM.combined
  split
  · exact .pure _
  · exact unresolvedExpr_same _ _

theorem liftSettled_apply_same (op : Sym.Op) {args : List Sym.Expr}
    (hargs : ∀ a ∈ args, c.Same (LiftM.liftSettled a)) :
    c.Same (LiftM.liftSettled (.apply op args)) := by
  have h := LiftM.liftSettled_apply op args
  generalize LiftM.liftSettled (.apply op args) = x at h ⊢
  cases h with
  | slot => exact slotAddress_same _
  | masked | byte => exact (hargs _ (by simp)).map _
  | unary => exact (hargs _ (by simp)).bind fun e => combined_same op [e]
  | moved =>
    exact (hargs _ (by simp)).bind fun p => moved_same _ p _
  | shifted =>
    exact (hargs _ (by simp)).bind fun e => (hargs _ (by simp)).bind fun s =>
      .globals (fun g g' hg => by rw [hg.shiftRight]) fun _ => .pure _
  | binary =>
    exact (hargs _ (by simp)).bind fun e => (hargs _ (by simp)).bind fun f =>
      combined_same op [e, f]
  | unresolved reason => exact unresolvedExpr_same _ reason

mutual

theorem liftSettled_same : ∀ x : Sym.Expr, x.lookups ⊆ c.asks → c.Same (LiftM.liftSettled x)
  | .const k, h => by
    rw [LiftM.liftSettled]
    exact liftConstant_same h
  | .var v, h => by
    rw [LiftM.liftSettled]
    exact liftVariable_same v h
  | .apply op args, h => liftSettled_apply_same op fun a ha =>
    liftSettled_same a (List.Subset.trans (Sym.lookups_subset_lookupsOf ha) h)
termination_by x => sizeOf x

theorem liftVariable_same : ∀ v : Sym.Variable, v.lookups ⊆ c.asks → c.Same (LiftM.liftVariable v)
  | ⟨name, number, meaning⟩, h => by
    have h : meaning.lookups ⊆ c.asks := h
    unfold LiftM.liftVariable
    split
    · exact (temporaryVariable_same name).map _
    · split
      · exact (registerUse_same _).map _
      · exact (localVariable_same _).map _
      · exact (liftPlace_same name _ h).bind fun place => (placed_same place).map _
      · exact liftFixed_same name _ h
      · exact unresolvedExpr_same _ _
termination_by x => sizeOf x

theorem liftFixed_same (name : String) :
    ∀ value : Sym.FixedValue, value.lookups ⊆ c.asks → c.Same (LiftM.liftFixed name value)
  | .initialRegister r _, _ => by
    rw [LiftM.liftFixed]
    exact liftInitialRegister_same r
  | .initialMemory v, h => by
    rw [LiftM.liftFixed]
    refine (stackFormal?_same v).bind fun formal => ?_
    split
    · exact .pure _
    · exact (liftLvalue_same v h).bind fun place => (placed_same place).map _
  | .returnValue callSite callee, _ => by
    rw [LiftM.liftFixed]
    exact liftReturnValue_same name callSite callee
  | .symbolic _ x, h => by
    rw [LiftM.liftFixed]
    exact liftSettled_same x h
termination_by x => sizeOf x

theorem liftLvalue_same : ∀ v : Sym.Variable, v.lookups ⊆ c.asks → c.Same (LiftM.liftLvalue v)
  | ⟨name, number, meaning⟩, h => by
    rw [LiftM.liftLvalue]
    split
    · exact (temporaryVariable_same name).map _
    · exact liftPlace_same name meaning h
termination_by x => sizeOf x

theorem liftPlace_same (name : String) :
    ∀ meaning : Sym.Meaning, meaning.lookups ⊆ c.asks → c.Same (LiftM.liftPlace name meaning)
  | .register r, _ | .flag r, _ => by
    rw [LiftM.liftPlace]
    exact (localVariable_same _).map _
  | .memory .localFrame _ .none, _ => by
    rw [LiftM.liftPlace]
    exact (localVariable_same _).map _
  | .memory .localFrame _ (.const v sub), h => by
    rw [LiftM.liftPlace]
    have hsub : sub.lookups ⊆ c.asks := (List.append_subset.mp h).2
    exact (localVariable_same _).bind fun s => (liftOffset_same sub hsub s.type).map _
  | .memory .localFrame _ (.field ..), _ | .memory .localFrame _ (.index ..), _
  | .memory .localFrame _ (.indexVar ..), _ | .memory .localFrame _ .unknown, _
  | .memory .allocatedFrame _ _, _ | .memory .realignedFrame _ _, _ | .memory (.unknown _) _ _, _
  | .fixed _, _ | .absent, _ => by
    simp only [LiftM.liftPlace]
    exact .pure _
  | .memory .globals _ (.const v sub), h => by
    rw [LiftM.liftPlace]
    have haccess : .access v.toUInt64 ∈ c.asks := h (by
      simp [Sym.Meaning.lookups, Sym.Base.accesses, Sym.Offset.distances])
    have hsub : sub.lookups ⊆ c.asks := (List.append_subset.mp h).2
    refine (globalAt_same haccess).bind fun found => ?_
    obtain ⟨s, distance⟩ := found
    dsimp only
    split
    · exact (along_same _ _ fun t => liftOffset_same sub hsub (some t)).map _
    · split
      · exact (liftOffset_same sub hsub none).map _
      · exact (unresolvedOffset_same _).map _
  | .memory .globals _ .none, _ | .memory .globals _ (.field ..), _
  | .memory .globals _ (.index ..), _ | .memory .globals _ (.indexVar ..), _
  | .memory .globals _ .unknown, _ => by
    simp only [LiftM.liftPlace]
    exact .pure _
  | .memory (.pointer v) _ offset, h => by
    rw [LiftM.liftPlace]
    have hv : v.lookups ⊆ c.asks := (List.append_subset.mp h).1
    have hoffset : offset.lookups ⊆ c.asks := (List.append_subset.mp h).2
    exact (liftVariable_same v hv).bind fun p => (liftDeref_same p offset hoffset).map _
termination_by x => sizeOf x

theorem liftDeref_same (p : Expr) :
    ∀ o : Sym.Offset, o.lookups ⊆ c.asks → c.Same (LiftM.liftDeref p o)
  | .none, _ => by
    rw [LiftM.liftDeref]
    exact .pure _
  | .unknown, _ => by
    rw [LiftM.liftDeref]
    exact (unresolvedOffset_same _).map _
  | .field name key sub, h => by
    rw [LiftM.liftDeref]
    exact .globals (fun g g' hg => by rw [hg.fieldType?]) fun g => (liftOffset_same sub h _).map _
  | .const v sub, h => by
    rw [LiftM.liftDeref]
    refine .globals (fun g g' hg => by rw [hg.targetType?]) fun g => read_same.bind fun site => ?_
    dsimp only
    split
    · exact (along_same _ v fun landing => liftOffset_same sub h (some landing)).map _
    · split
      · exact (liftOffset_same sub h _).map _
      · exact (liftOffset_same sub h none).map _
  | .index i sub, h => by
    rw [LiftM.liftDeref]
    have hi : i.lookups ⊆ c.asks := (List.append_subset.mp h).1
    have hsub : sub.lookups ⊆ c.asks := (List.append_subset.mp h).2
    exact .globals (fun g g' hg => by rw [hg.targetType?]) fun g =>
      (liftSettled_same i hi).bind fun e => (liftOffset_same sub hsub _).map _
  | .indexVar v elementSize sub, h => by
    rw [LiftM.liftDeref]
    have hv : v.lookups ⊆ c.asks := (List.append_subset.mp h).1
    have hsub : sub.lookups ⊆ c.asks := (List.append_subset.mp h).2
    exact .globals (fun g g' hg => by rw [hg.targetType?]) fun g =>
      (liftVariable_same v hv).bind fun i => (measured_same _).bind fun size =>
        (liftOffset_same sub hsub _).map _
termination_by x => sizeOf x

theorem liftOffset_same :
    ∀ o : Sym.Offset, o.lookups ⊆ c.asks → ∀ host : Option Ty, c.Same (LiftM.liftOffset o host)
  | .none, _, _ => by
    rw [LiftM.liftOffset]
    exact .pure _
  | .const v sub, h, some host => by
    rw [LiftM.liftOffset]
    exact .globals (fun g g' hg => by rw [hg.resolve]) fun g =>
      along_same _ v fun landing => liftOffset_same sub h (some landing)
  | .const v sub, h, none => by
    rw [LiftM.liftOffset]
    split
    · exact liftOffset_same sub h none
    · exact unresolvedOffset_same _
  | .field name key sub, h, _ => by
    rw [LiftM.liftOffset]
    exact .globals (fun g g' hg => by rw [hg.fieldType?]) fun g => (liftOffset_same sub h _).map _
  | .index i sub, h, host => by
    rw [LiftM.liftOffset]
    have hi : i.lookups ⊆ c.asks := (List.append_subset.mp h).1
    have hsub : sub.lookups ⊆ c.asks := (List.append_subset.mp h).2
    exact (liftSettled_same i hi).bind fun e =>
      .globals (fun g g' hg => by simp only [funext hg.resolve]) fun g =>
        (liftOffset_same sub hsub _).map _
  | .indexVar v elementSize sub, h, host => by
    rw [LiftM.liftOffset]
    have hv : v.lookups ⊆ c.asks := (List.append_subset.mp h).1
    have hsub : sub.lookups ⊆ c.asks := (List.append_subset.mp h).2
    refine .globals (fun g g' hg => by simp only [funext hg.resolve]) fun g =>
      (measured_same _).bind fun size => ?_
    split
    · exact unresolvedOffset_same _
    · exact (liftVariable_same v hv).bind fun e => (liftOffset_same sub hsub _).map _
  | .unknown, _, _ => by
    rw [LiftM.liftOffset]
    exact unresolvedOffset_same _
termination_by x => sizeOf x

end

theorem liftExpr_same {x : Sym.Expr} (h : x.lookups ⊆ c.asks) : c.Same (LiftM.liftExpr x) :=
  liftSettled_same _
    (List.Subset.trans (Sym.Expr.lookups_simplify _) (List.Subset.trans x.lookups_settle h))

theorem liftLval_same {v : Sym.Variable} {hint : Option Sym.Expr} (hv : v.lookups ⊆ c.asks)
    (hhint : ∀ x ∈ hint, x.lookups ⊆ c.asks) : c.Same (LiftM.liftLval v hint) := by
  refine (liftLvalue_same v.settle (List.Subset.trans v.lookups_settle hv)).bind fun place => ?_
  split
  next reason address =>
    exact read_same.bind fun site => (note_same _).bind fun _ =>
      (liftExpr_same (hhint address rfl)).map _
  next => exact placed_same place

theorem liftDefinition_same {v : Sym.Variable} (t : Option Ty) {hint : Option Sym.Expr}
    (hv : v.lookups ⊆ c.asks) (hhint : ∀ x ∈ hint, x.lookups ⊆ c.asks) :
    c.Same (LiftM.liftDefinition v t hint) := by
  refine read_same.bind fun site => ?_
  split
  · split
    · exact (ssaVariable_same _ _ t).map _
    · exact liftLval_same hv hhint
  · exact liftLval_same hv hhint

/-! ### Low-level lifting -/

theorem lowerAddress_same (name : String) (p : Expr) (distance : Option Int64) :
    c.Same (LiftM.lowerAddress name p distance) := by
  unfold LiftM.lowerAddress
  split
  · exact .pure _
  · exact .pure _
  · exact (unresolvedExpr_same _ _).map _

mutual

theorem lowerExpr_same : ∀ x : Sym.Expr, x.lookups ⊆ c.asks → c.Same (LiftM.lowerExpr x)
  | .const k, _ => by
    rw [LiftM.lowerExpr]
    exact .pure _
  | .var v, h => by
    rw [LiftM.lowerExpr]
    exact lowerVariable_same v h
  | .apply op args, h => by
    unfold LiftM.lowerExpr
    split
    iterate 4 exact liftSettled_same _ (List.Subset.trans (Sym.Expr.lookups_settle _) h)
    exact (lowerExprs_same args h).bind fun es => combined_same op es
termination_by x => sizeOf x

theorem lowerExprs_same :
    ∀ xs : List Sym.Expr, Sym.Expr.lookupsOf xs ⊆ c.asks → c.Same (LiftM.lowerExprs xs)
  | [], _ => by
    rw [LiftM.lowerExprs]
    exact .pure _
  | x :: rest, h => by
    rw [LiftM.lowerExprs]
    have hx : x.lookups ⊆ c.asks := (List.append_subset.mp h).1
    have hrest : Sym.Expr.lookupsOf rest ⊆ c.asks := (List.append_subset.mp h).2
    exact (lowerExpr_same x hx).bind fun e => (lowerExprs_same rest hrest).map _
termination_by x => sizeOf x

theorem lowerVariable_same :
    ∀ v : Sym.Variable, v.lookups ⊆ c.asks → c.Same (LiftM.lowerVariable v)
  | ⟨name, number, meaning⟩, h => by
    rw [LiftM.lowerVariable]
    split
    · rename_i value hvalue
      exact lowerFixed?_same meaning h value hvalue
    · exact (lowerPlace_same name number meaning h).map _
termination_by x => sizeOf x

theorem lowerFixed?_same :
    ∀ meaning : Sym.Meaning, meaning.lookups ⊆ c.asks →
      ∀ value : LiftM Expr, LiftM.lowerFixed? meaning = some value → c.Same value
  | .fixed (.initialRegister r _), _, value, h => by
    rw [LiftM.lowerFixed?] at h
    rw [← Option.some.inj h]
    exact (localVariable_same _).map _
  | .fixed (.initialMemory ⟨name, number, meaning⟩), hasks, value, h => by
    rw [LiftM.lowerFixed?] at h
    rw [← Option.some.inj h]
    exact (lowerPlace_same name number meaning hasks).map _
  | .fixed (.returnValue callSite _), _, value, h => by
    rw [LiftM.lowerFixed?] at h
    rw [← Option.some.inj h]
    exact (localVariable_same _).map _
  | .fixed (.symbolic _ x), hasks, value, h => by
    rw [LiftM.lowerFixed?] at h
    rw [← Option.some.inj h]
    exact lowerExpr_same x hasks
  | .absent, _, value, h | .register _, _, value, h | .flag _, _, value, h
  | .memory .., _, value, h => by
    simp [LiftM.lowerFixed?] at h
termination_by x => sizeOf x

theorem lowerPlace_same (name : String) (number : Int64) :
    ∀ meaning : Sym.Meaning, meaning.lookups ⊆ c.asks →
      c.Same (LiftM.lowerPlace name number meaning)
  | meaning, h => by
    unfold LiftM.lowerPlace
    split
    · exact (temporaryVariable_same name).map _
    · split
      · exact (localVariable_same _).map _
      · exact (localVariable_same _).map _
      next v _ _ =>
        have hv : v.lookups ⊆ c.asks :=
          List.Subset.trans (List.subset_append_left _ _) h
        exact (lowerVariable_same v hv).bind fun p => (lowerAddress_same name p _).map _
      next offset =>
        split
        next a ha =>
          have haccess : .access a.toUInt64 ∈ c.asks := h (by
            simp [Sym.Meaning.lookups, Sym.Base.accesses, Sym.Offset.distances, ha])
          exact (lowerGlobal_same haccess).map _
        next => exact .pure _
      · split
        · exact (localVariable_same _).map _
        · exact .pure _
      · exact .pure _
      · exact placed_same _
      · exact placed_same _
termination_by x => sizeOf x

end

theorem lowerLval_same {v : Sym.Variable} (h : v.lookups ⊆ c.asks) :
    c.Same (LiftM.lowerLval v) := by
  obtain ⟨name, number, meaning⟩ := v
  exact lowerPlace_same name number meaning h

end Pairing

end FactLift
