import FactLift.Lift.Instruction
import FactLift.Proofs.Lift.ApplyForm
import FactLift.Proofs.Lift.Attempts

/-! The single steps that lifting a value takes.

Lifting a value, in either form, reads the session, makes up symbols, reports gaps and writes to the
log; what it works out can end in a fault, but in an acyclic table it always comes to an end.
`Steps x` says that an action is put together from such steps. It holds of the lift of any value
(`liftExpr_steps`, `liftLval_steps`, `lowerExpr_steps`, `lowerLval_steps`), so what every step keeps
is kept by every such lift: one induction on `Steps` instead of one over symbolic expressions. -/

namespace FactLift

open C

/-- The kinds of what is reported when a placeholder stands for something. -/
def DiagnosticKind.isPlaceholder : DiagnosticKind → Bool
  | unresolvedValue | unsupportedOffset | ambiguousSsa => true
  | provenanceOverwrite | errorValuedRecord => false

/-- The operators that C has no counterpart for. -/
def Sym.Op.isExtraction : Sym.Op → Bool
  | .xbyte | .lsb | .lsh | .range => true
  | _ => false

namespace LiftM

/-- An action put together from the steps that lifting a value takes. -/
inductive Steps : {α : Type} → LiftM α → Prop
  | pure {α : Type} (a : α) : Steps (pure a : LiftM α)
  | bind {α β : Type} {x : LiftM α} {f : α → LiftM β} (hx : Steps x) (hf : ∀ a, Steps (f a)) :
      Steps (x >>= f)
  | read : Steps (read : LiftM Site)
  | globals : Steps globals
  | locals : Steps locals
  | attempt {α : Type} {x : Globals → Except Fault α} {fallback : Globals → α}
      (h : ∀ g, g.Acyclic → x g ≠ .error .endless) :
      Steps (do
        let g ← globals
        attempt (x g) (fallback g))
  | note (r : LogRecord) : Steps (note r)
  | report {kind : DiagnosticKind} (message : String) (h : kind.isPlaceholder) :
      Steps (report kind message)
  | register (name : String) : Steps (registerVariable name)
  | flag (name : String) : Steps (flagVariable name)
  | slot (offset : Int64) : Steps (slotVariable offset)
  | named (name description : String) : Steps (namedVariable name description)
  | temporary (name : String) : Steps (temporaryVariable name)
  | global (v : Symbol) : Steps (globalVariable (·.addVariable v))
  | lowerGlobal (a : UInt64) : Steps (lowerGlobal a)

/-- The result is wrapped into something else. -/
theorem Steps.map {α β : Type} {x : LiftM α} (hx : Steps x) (f : α → β) :
    Steps (do return f (← x)) :=
  hx.bind fun _ => .pure _

theorem unresolvedExpr_steps {kind : DiagnosticKind} (reason : String)
    (h : kind.isPlaceholder) : Steps (unresolvedExpr kind reason) :=
  (Steps.report reason h).map _

theorem unresolvedOffset_steps (reason : String) : Steps (unresolvedOffset reason) :=
  (Steps.report reason (by decide)).map _

/-- The address of a made-up variable is made up with it. -/
theorem slotAddress_steps (offset : Int64) : Steps (slotAddress offset) :=
  (Steps.slot _).map _

/-! ### High-level lifting -/

theorem registerUse_steps (register : String) : Steps (registerUse register) := by
  refine Steps.read.bind fun site => Steps.locals.bind fun l => ?_
  dsimp only
  split
  · exact .pure _
  · exact .register _

theorem followed_steps (host : Ty) (bytes : Int64) : Steps (followed host bytes) :=
  .attempt fun _ hg => (Globals.follows_navigation hg host bytes).ne_endless

theorem sought_steps (a : UInt64) : Steps (sought a) :=
  .attempt fun g hg => by
    rw [Globals.search_eq_ok hg]
    exact nofun

theorem measured_steps (t : Option Ty) : Steps (measured t) :=
  .attempt fun g hg => by
    cases t with
    | none => exact nofun
    | some t =>
      rw [Option.elim_some, Globals.sizing_eq_ok hg]
      exact nofun

theorem moved_steps (op : BinOp) (p : Expr) (c : Int64) : Steps (moved op p c) :=
  Steps.read.bind fun _ => .attempt fun _ hg => movement_ne_endless hg

theorem along_steps (host : Ty) (bytes : Int64) {rest : Ty → LiftM Offset}
    (hrest : ∀ t, Steps (rest t)) : Steps (along host bytes rest) := by
  refine (followed_steps host bytes).bind fun path => ?_
  split
  · exact (hrest _).map _
  · exact (unresolvedOffset_steps _).map _

theorem liftAddress_steps (a : UInt64) : Steps (liftAddress a) := by
  refine (sought_steps a).bind fun found => ?_
  split
  · exact .pure _
  · dsimp only
    split
    · exact .pure _
    · split
      · exact (along_steps _ _ fun _ => .pure _).map _
      · exact (unresolvedOffset_steps _).map _

theorem liftConstant_steps (c : Sym.Constant) : Steps (liftConstant c) := by
  unfold liftConstant
  split
  · exact .pure _
  · exact .pure _
  · exact liftAddress_steps _

theorem liftInitialRegister_steps (register : String) : Steps (liftInitialRegister register) := by
  unfold liftInitialRegister
  split
  · exact slotAddress_steps 0
  · refine Steps.locals.bind fun l => ?_
    split
    · exact .pure _
    · exact (Steps.named ..).map _

theorem liftReturnValue_steps (name : String) (callSite : UInt64) (callee : Option String) :
    Steps (liftReturnValue name callSite callee) := by
  refine Steps.locals.bind fun l => ?_
  split
  · exact .pure _
  · exact (Steps.named ..).map _
  · exact unresolvedExpr_steps _ (by decide)

theorem stackFormal?_steps (v : Sym.Variable) : Steps (stackFormal? v) := by
  unfold stackFormal?
  split
  · split
    · exact .pure _
    · exact Steps.locals.map _
  · exact .pure _

theorem globalAt_steps (a : UInt64) : Steps (globalAt a) := by
  refine (sought_steps a).bind fun found => ?_
  split
  · exact .pure _
  · exact (Steps.global _).map _

theorem placed_steps (place : Except String Lval) : Steps (placed place) := by
  cases place with
  | ok l => exact .pure l
  | error reason => exact (unresolvedExpr_steps reason (by decide)).map _

theorem combined_steps (op : Sym.Op) (args : List Expr) : Steps (combined op args) := by
  unfold combined
  split
  · exact .pure _
  · exact unresolvedExpr_steps _ (by decide)

/-- An operator takes the steps of its operands, and those that put them together. -/
theorem liftSettled_apply_steps (op : Sym.Op) {args : List Sym.Expr}
    (hargs : ∀ a ∈ args, Steps (liftSettled a)) : Steps (liftSettled (.apply op args)) := by
  have h := liftSettled_apply op args
  generalize liftSettled (.apply op args) = x at h ⊢
  cases h with
  | slot => exact slotAddress_steps _
  | masked | byte => exact (hargs _ (by simp)).map _
  | unary => exact (hargs _ (by simp)).bind fun e => combined_steps op [e]
  | moved => exact (hargs _ (by simp)).bind fun p => moved_steps _ p _
  | shifted =>
    exact (hargs _ (by simp)).bind fun e => (hargs _ (by simp)).bind fun s => Steps.globals.map _
  | binary =>
    exact (hargs _ (by simp)).bind fun e => (hargs _ (by simp)).bind fun f =>
      combined_steps op [e, f]
  | unresolved reason => exact unresolvedExpr_steps reason (by decide)

mutual

theorem liftSettled_steps : ∀ x : Sym.Expr, Steps (liftSettled x)
  | .const c => by
    rw [liftSettled]
    exact liftConstant_steps c
  | .var v => by
    rw [liftSettled]
    exact liftVariable_steps v
  | .apply op args => liftSettled_apply_steps op fun a _ => liftSettled_steps a
termination_by x => sizeOf x

theorem liftVariable_steps : ∀ v : Sym.Variable, Steps (liftVariable v)
  | ⟨name, number, meaning⟩ => by
    unfold liftVariable
    split
    · exact (Steps.temporary name).map _
    · split
      · exact (registerUse_steps _).map _
      · exact (Steps.flag _).map _
      · exact (liftPlace_steps name _).bind fun place => (placed_steps place).map _
      · exact liftFixed_steps name _
      · exact unresolvedExpr_steps _ (by decide)
termination_by x => sizeOf x

theorem liftFixed_steps (name : String) : ∀ value : Sym.FixedValue, Steps (liftFixed name value)
  | .initialRegister r _ => by
    rw [liftFixed]
    exact liftInitialRegister_steps r
  | .initialMemory v => by
    rw [liftFixed]
    refine (stackFormal?_steps v).bind fun formal => ?_
    split
    · exact .pure _
    · exact (liftLvalue_steps v).bind fun place => (placed_steps place).map _
  | .returnValue callSite callee => by
    rw [liftFixed]
    exact liftReturnValue_steps name callSite callee
  | .symbolic _ x => by
    rw [liftFixed]
    exact liftSettled_steps x
termination_by x => sizeOf x

theorem liftLvalue_steps : ∀ v : Sym.Variable, Steps (liftLvalue v)
  | ⟨name, number, meaning⟩ => by
    rw [liftLvalue]
    split
    · exact (Steps.temporary name).map _
    · exact liftPlace_steps name meaning
termination_by x => sizeOf x

theorem liftPlace_steps (name : String) : ∀ meaning : Sym.Meaning, Steps (liftPlace name meaning)
  | .register r => by
    rw [liftPlace]
    exact (Steps.register r).map _
  | .flag f => by
    rw [liftPlace]
    exact (Steps.flag f).map _
  | .memory .localFrame _ .none => by
    rw [liftPlace]
    exact (Steps.slot _).map _
  | .memory .localFrame _ (.const v sub) => by
    rw [liftPlace]
    exact (Steps.slot _).bind fun s => (liftOffset_steps sub s.type).map _
  | .memory .localFrame _ (.field ..) | .memory .localFrame _ (.index ..)
  | .memory .localFrame _ (.indexVar ..) | .memory .localFrame _ .unknown
  | .memory .allocatedFrame _ _ | .memory .realignedFrame _ _ | .memory (.unknown _) _ _
  | .fixed _ | .absent => by
    simp only [liftPlace]
    exact .pure _
  | .memory .globals _ (.const v sub) => by
    rw [liftPlace]
    refine (globalAt_steps _).bind fun found => ?_
    obtain ⟨s, distance⟩ := found
    dsimp only
    split
    · exact (along_steps _ _ fun t => liftOffset_steps sub (some t)).map _
    · split
      · exact (liftOffset_steps sub none).map _
      · exact (unresolvedOffset_steps _).map _
  | .memory .globals _ .none | .memory .globals _ (.field ..) | .memory .globals _ (.index ..)
  | .memory .globals _ (.indexVar ..) | .memory .globals _ .unknown => by
    simp only [liftPlace]
    exact .pure _
  | .memory (.pointer v) _ offset => by
    rw [liftPlace]
    exact (liftVariable_steps v).bind fun p => (liftDeref_steps p offset).map _
termination_by x => sizeOf x

theorem liftDeref_steps (p : Expr) : ∀ o : Sym.Offset, Steps (liftDeref p o)
  | .none => by
    rw [liftDeref]
    exact .pure _
  | .unknown => by
    rw [liftDeref]
    exact (unresolvedOffset_steps _).map _
  | .field name key sub => by
    rw [liftDeref]
    exact Steps.globals.bind fun g => (liftOffset_steps sub _).map _
  | .const v sub => by
    rw [liftDeref]
    refine Steps.globals.bind fun g => Steps.read.bind fun site => ?_
    dsimp only
    split
    · exact (along_steps _ v fun landing => liftOffset_steps sub (some landing)).map _
    · split
      · exact (liftOffset_steps sub _).map _
      · exact (liftOffset_steps sub none).map _
  | .index i sub => by
    rw [liftDeref]
    exact Steps.globals.bind fun g => (liftSettled_steps i).bind fun e =>
      (liftOffset_steps sub _).map _
  | .indexVar v elementSize sub => by
    rw [liftDeref]
    exact Steps.globals.bind fun g => (liftVariable_steps v).bind fun i =>
      (measured_steps _).bind fun size => (liftOffset_steps sub _).map _
termination_by x => sizeOf x

theorem liftOffset_steps : ∀ (o : Sym.Offset) (host : Option Ty), Steps (liftOffset o host)
  | .none, _ => by
    rw [liftOffset]
    exact .pure _
  | .const v sub, some host => by
    rw [liftOffset]
    exact Steps.globals.bind fun g =>
      along_steps _ v fun landing => liftOffset_steps sub (some landing)
  | .const v sub, none => by
    rw [liftOffset]
    split
    · exact liftOffset_steps sub none
    · exact unresolvedOffset_steps _
  | .field name key sub, _ => by
    rw [liftOffset]
    exact Steps.globals.bind fun g => (liftOffset_steps sub _).map _
  | .index i sub, host => by
    rw [liftOffset]
    exact (liftSettled_steps i).bind fun e => Steps.globals.bind fun g =>
      (liftOffset_steps sub _).map _
  | .indexVar v elementSize sub, host => by
    rw [liftOffset]
    refine Steps.globals.bind fun g => (measured_steps _).bind fun size => ?_
    split
    · exact unresolvedOffset_steps _
    · exact (liftVariable_steps v).bind fun e => (liftOffset_steps sub _).map _
  | .unknown, _ => by
    rw [liftOffset]
    exact unresolvedOffset_steps _
termination_by x => sizeOf x

end

theorem liftExpr_steps (x : Sym.Expr) : Steps (liftExpr x) :=
  liftSettled_steps _

theorem liftLval_steps (v : Sym.Variable) (hint : Option Sym.Expr) : Steps (liftLval v hint) := by
  refine (liftLvalue_steps v.settle).bind fun place => ?_
  split
  · exact Steps.read.bind fun site => (Steps.note _).bind fun _ => (liftExpr_steps _).map _
  · exact placed_steps place

/-! ### Low-level lifting -/

theorem lowerAddress_steps (name : String) (p : Expr) (distance : Option Int64) :
    Steps (lowerAddress name p distance) := by
  unfold lowerAddress
  split
  · exact .pure _
  · exact .pure _
  · exact (unresolvedExpr_steps _ (by decide)).map _

theorem lowerExpr_apply (op : Sym.Op) (args : List Sym.Expr) :
    lowerExpr (.apply op args) =
      if op.isExtraction then liftSettled (Sym.Expr.apply op args).settle
      else (do combined op (← lowerExprs args)) := by
  cases op <;> simp [lowerExpr, Sym.Op.isExtraction]

mutual

theorem lowerExpr_steps : ∀ x : Sym.Expr, Steps (lowerExpr x)
  | .const c => by
    rw [lowerExpr]
    exact .pure _
  | .var v => by
    rw [lowerExpr]
    exact lowerVariable_steps v
  | .apply op args => by
    rw [lowerExpr_apply]
    split
    · exact liftSettled_steps _
    · exact (lowerExprs_steps args).bind fun es => combined_steps op es
termination_by x => sizeOf x

theorem lowerExprs_steps : ∀ xs : List Sym.Expr, Steps (lowerExprs xs)
  | [] => by
    rw [lowerExprs]
    exact .pure _
  | x :: rest => by
    rw [lowerExprs]
    exact (lowerExpr_steps x).bind fun e => (lowerExprs_steps rest).map _
termination_by x => sizeOf x

theorem lowerVariable_steps : ∀ v : Sym.Variable, Steps (lowerVariable v)
  | ⟨name, number, meaning⟩ => by
    rw [lowerVariable]
    split
    · rename_i value hvalue
      exact lowerFixed?_steps meaning value hvalue
    · exact (lowerPlace_steps name number meaning).map _
termination_by x => sizeOf x

theorem lowerFixed?_steps :
    ∀ (meaning : Sym.Meaning) (value : LiftM Expr), lowerFixed? meaning = some value → Steps value
  | .fixed (.initialRegister r _), value, h => by
    rw [lowerFixed?] at h
    rw [← Option.some.inj h]
    exact (Steps.named ..).map _
  | .fixed (.initialMemory ⟨name, number, meaning⟩), value, h => by
    rw [lowerFixed?] at h
    rw [← Option.some.inj h]
    exact (lowerPlace_steps name number meaning).map _
  | .fixed (.returnValue callSite _), value, h => by
    rw [lowerFixed?] at h
    rw [← Option.some.inj h]
    exact (Steps.named ..).map _
  | .fixed (.symbolic _ x), value, h => by
    rw [lowerFixed?] at h
    rw [← Option.some.inj h]
    exact lowerExpr_steps x
  | .absent, value, h | .register _, value, h | .flag _, value, h | .memory .., value, h => by
    simp [lowerFixed?] at h
termination_by x => sizeOf x

theorem lowerPlace_steps (name : String) (number : Int64) :
    ∀ meaning : Sym.Meaning, Steps (lowerPlace name number meaning)
  | meaning => by
    unfold lowerPlace
    split
    · exact (Steps.temporary name).map _
    · split
      · exact (Steps.register _).map _
      · exact (Steps.flag _).map _
      · exact (lowerVariable_steps _).bind fun p => (lowerAddress_steps name p _).map _
      · split
        · exact (Steps.lowerGlobal _).map _
        · exact .pure _
      · split
        · exact (Steps.slot _).map _
        · exact .pure _
      · exact .pure _
      · exact placed_steps _
      · exact placed_steps _
termination_by x => sizeOf x

end

theorem lowerLval_steps (v : Sym.Variable) : Steps (lowerLval v) :=
  lowerPlace_steps v.name v.number v.meaning

/-! ### The function that is called -/

theorem functionNamed_steps (name : String) : Steps (functionNamed name) := by
  refine Steps.locals.bind fun l => ?_
  split
  · exact .pure _
  · exact (Steps.global _).map _

theorem liftCallee_steps (name : Option String) (address : Option Sym.Expr) :
    Steps (liftCallee name address) := by
  unfold liftCallee
  split
  · exact (functionNamed_steps _).map _
  · exact (lowerExpr_steps _).bind fun _ => (liftExpr_steps _).map _
  · exact (unresolvedExpr_steps _ (by decide)).map _

end LiftM

end FactLift
