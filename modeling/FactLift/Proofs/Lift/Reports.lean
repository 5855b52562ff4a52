import FactLift.Proofs.C.Placeholder
import FactLift.Proofs.Lift.ApplyForm
import FactLift.Proofs.Lift.Attempts

/-! What a lift reports.

Lifting never fails: what cannot be resolved becomes a placeholder, and a diagnostic is reported.
`Reports before x after` follows an action with the reasons that are reported: if `before` has been
reported when the action starts, then `after` of its result has been reported when it ends. The
rules are those of a program logic, so each lifting function is followed through its `do` block.

`liftSettled_reports` and its companions say that every lifting function reports the placeholders of
the tree that it gives, each once and in the order in which the tree is read. -/

namespace FactLift

open C

/-- Between two sessions these reasons were reported, in this order and all for one address. -/
def Reported (address : UInt64) (reasons : List String) (s s' : Session) : Prop :=
  ∃ ds, s'.diagnostics = s.diagnostics ++ ds ∧ ds.map Diagnostic.message = reasons ∧
    ∀ d ∈ ds, d.site = some address

namespace Reported

variable {address : UInt64} {reasons reasons' : List String} {s s' s'' : Session}

theorem of_eq (h : s'.diagnostics = s.diagnostics) : Reported address [] s s' :=
  ⟨[], by rw [h, List.append_nil], rfl, fun _ hd => absurd hd List.not_mem_nil⟩

theorem trans (h : Reported address reasons s s') (h' : Reported address reasons' s' s'') :
    Reported address (reasons ++ reasons') s s'' := by
  obtain ⟨ds, hds, hm, hsite⟩ := h
  obtain ⟨ds', hds', hm', hsite'⟩ := h'
  refine ⟨ds ++ ds', by rw [hds', hds, List.append_assoc], by rw [List.map_append, hm, hm'], ?_⟩
  intro d hd
  rcases List.mem_append.mp hd with hd | hd
  · exact hsite d hd
  · exact hsite' d hd

end Reported

namespace LiftM

variable {α β : Type}

/-- With `before` reported at the start, the action ends with `after` of its result reported. -/
def Reports (before : List String) (x : LiftM α) (after : α → List String) : Prop :=
  ∀ site s, ∃ new, Reported site.address new s (x site s).2 ∧ before ++ new = after (x site s).1

/-- An action that reports nothing. -/
def Silent (x : LiftM α) : Prop :=
  ∀ site s, (x site s).2.diagnostics = s.diagnostics

/-! ### The rules -/

namespace Reports

variable {before : List String} {x : LiftM α} {middle : α → List String}

theorem pure {a : α} {after : α → List String} (h : before = after a) :
    Reports before (pure a : LiftM α) after :=
  fun _ _ => ⟨[], .of_eq rfl, by rw [List.append_nil]; exact h⟩

theorem bind {f : α → LiftM β} {after : β → List String} (hx : Reports before x middle)
    (hf : ∀ a, Reports (middle a) (f a) after) : Reports before (x >>= f) after := by
  intro site s
  obtain ⟨new, hnew, hmiddle⟩ := hx site s
  obtain ⟨new', hnew', hafter⟩ := hf (x site s).1 site (x site s).2
  refine ⟨new ++ new', hnew.trans hnew', ?_⟩
  rw [← List.append_assoc, hmiddle]
  exact hafter

/-- Reports from before do not matter. -/
theorem frame (hx : Reports [] x middle) (earlier : List String) :
    Reports earlier x fun a => earlier ++ middle a := by
  intro site s
  obtain ⟨new, hnew, hmiddle⟩ := hx site s
  refine ⟨new, hnew, ?_⟩
  show earlier ++ new = earlier ++ middle (x site s).1
  rw [← hmiddle, List.nil_append]

/-- The result is wrapped into something with the same reasons. -/
theorem map {f : α → β} {after : β → List String} (hx : Reports before x middle)
    (h : ∀ a, middle a = after (f a)) : Reports before (do return f (← x)) after :=
  hx.bind fun a => .pure (h a)

end Reports

namespace Silent

theorem pure (a : α) : Silent (pure a : LiftM α) := fun _ _ => rfl

theorem bind {x : LiftM α} {f : α → LiftM β} (hx : Silent x) (hf : ∀ a, Silent (f a)) :
    Silent (x >>= f) :=
  fun site s => (hf (x site s).1 site (x site s).2).trans (hx site s)

theorem reports {x : LiftM α} (hx : Silent x) (before : List String) :
    Reports before x fun _ => before :=
  fun site s => ⟨[], .of_eq (hx site s), List.append_nil before⟩

/-- A silent action, then one that reports. -/
theorem next {before : List String} {x : LiftM α} {f : α → LiftM β} {after : β → List String}
    (hx : Silent x) (hf : ∀ a, Reports before (f a) after) : Reports before (x >>= f) after :=
  (hx.reports before).bind hf

end Silent

/-! ### The actions that everything is made of -/

theorem read_silent : Silent (read : LiftM Site) := fun _ _ => rfl

theorem globals_silent : Silent globals := fun _ _ => rfl

theorem locals_silent : Silent locals := fun _ _ => rfl

theorem note_silent (r : LogRecord) : Silent (note r) := fun _ _ => rfl

theorem attempt_silent (x : Except Fault α) (fallback : α) : Silent (attempt x fallback) :=
  fun _ _ => rfl

theorem localVariable_silent (f : Locals → VarId × Locals) : Silent (localVariable f) :=
  fun _ _ => rfl

theorem globalVariable_silent (f : Globals → Symbol × Globals) : Silent (globalVariable f) :=
  fun _ _ => rfl

theorem modifyGet_silent {f : Session → α × Session}
    (h : ∀ s, (f s).2.diagnostics = s.diagnostics) : Silent (modifyGet f) :=
  fun _ s => h s

theorem temporaryVariable_silent (name : String) : Silent (temporaryVariable name) := by
  refine modifyGet_silent fun s => ?_
  cases s.temporaries[name]? <;> rfl

theorem report_reports (kind : DiagnosticKind) (message : String) :
    Reports [] (report kind message) fun _ => [message] := by
  intro site s
  exact ⟨[message], ⟨[⟨some site.address, kind, message⟩], rfl, rfl, by simp⟩, rfl⟩

theorem unresolvedExpr_reports (kind : DiagnosticKind) (reason : String) :
    Reports [] (unresolvedExpr kind reason) Expr.reasons :=
  (report_reports kind reason).map fun _ => by rw [Expr.reasons]

theorem unresolvedOffset_reports (reason : String) :
    Reports [] (unresolvedOffset reason) Offset.reasons :=
  (report_reports .unsupportedOffset reason).map fun _ => by rw [Offset.reasons]

/-! ### Variables, constants and paths -/

theorem registerUse_silent (register : String) : Silent (registerUse register) := by
  refine read_silent.bind fun site => locals_silent.bind fun l => ?_
  dsimp only
  split
  · exact .pure _
  · exact localVariable_silent _

theorem followed_silent (host : Ty) (bytes : Int64) : Silent (followed host bytes) :=
  globals_silent.bind fun _ => attempt_silent _ _

theorem measured_silent (t : Option Ty) : Silent (measured t) :=
  globals_silent.bind fun _ => attempt_silent _ _

/-- A path reports where it gets stuck, or what follows its landing. -/
theorem along_reports (host : Ty) (bytes : Int64) {rest : Ty → LiftM Offset}
    (hrest : ∀ t, Reports [] (rest t) Offset.reasons) :
    Reports [] (along host bytes rest) Offset.reasons := by
  refine (followed_silent host bytes).next fun path => ?_
  split
  · exact (hrest _).map fun offset => (Path.reasons_wrap _ offset).symm
  · exact (unresolvedOffset_reports _).map fun offset => (Path.reasons_wrap _ offset).symm

theorem sought_silent (a : UInt64) : Silent (sought a) :=
  globals_silent.bind fun _ => attempt_silent _ _

theorem liftAddress_reports (a : UInt64) : Reports [] (liftAddress a) Expr.reasons := by
  have hwrap (s : Symbol) (offset : Offset) : offset.reasons =
      (Expr.globalAddress a.toInt64 (.addressOf (.var s offset))).reasons := by
    simp only [Expr.reasons, Lval.reasons]
  refine (sought_silent a).next fun found => ?_
  split
  · exact .pure (by rw [Expr.reasons])
  · dsimp only
    split
    · exact .pure (by rw [← hwrap, Offset.reasons])
    · split
      · exact (along_reports _ _ fun _ => .pure (by rw [Offset.reasons])).map (hwrap _)
      · exact (unresolvedOffset_reports _).map (hwrap _)

theorem liftConstant_reports (c : Sym.Constant) : Reports [] (liftConstant c) Expr.reasons := by
  unfold liftConstant
  split
  · exact .pure (by rw [Expr.reasons])
  · exact .pure (by rw [Expr.reasons])
  · exact liftAddress_reports _

/-- A silent action whose result is read as a variable. -/
theorem Silent.symbol_reports {x : LiftM Symbol} (hx : Silent x) :
    Reports [] (do return .ofSymbol (← x)) Expr.reasons :=
  hx.next fun s => .pure (reasons_ofSymbol s).symm

theorem slotAddress_reports (offset : Int64) : Reports [] (slotAddress offset) Expr.reasons :=
  (localVariable_silent _).next fun s => .pure (by
    simp only [Expr.reasons, Lval.reasons, Offset.reasons])

theorem liftInitialRegister_reports (register : String) :
    Reports [] (liftInitialRegister register) Expr.reasons := by
  unfold liftInitialRegister
  split
  · exact slotAddress_reports 0
  · refine locals_silent.next fun l => ?_
    split
    · exact .pure (reasons_ofSymbol _).symm
    · exact (localVariable_silent _).symbol_reports

theorem liftReturnValue_reports (name : String) (callSite : UInt64) (callee : Option String) :
    Reports [] (liftReturnValue name callSite callee) Expr.reasons := by
  refine locals_silent.next fun l => ?_
  split
  · exact .pure (reasons_ofSymbol _).symm
  · exact (localVariable_silent _).symbol_reports
  · exact unresolvedExpr_reports _ _

theorem stackFormal?_silent (v : Sym.Variable) : Silent (stackFormal? v) := by
  unfold stackFormal?
  split
  · split
    · exact .pure _
    · exact locals_silent.bind fun _ => .pure _
  · exact .pure _

theorem globalAt_silent (a : UInt64) : Silent (globalAt a) := by
  refine (sought_silent a).bind fun found => ?_
  split
  · exact .pure _
  · exact (globalVariable_silent _).bind fun _ => .pure _

theorem reasons_moveBy (cfg : Config) (g : Globals) (op : BinOp) (p : Expr) (c : Int64) :
    (moveBy cfg g op p c).reasons = p.reasons := by
  have h := moveBy_form cfg g op p c
  generalize moveBy cfg g op p c = e at h ⊢
  cases h <;> simp only [Expr.reasons, Lval.reasons, Offset.reasons, List.append_nil]

/-- What is moved is reported, and the move adds nothing. -/
theorem moved_reports (op : BinOp) (p : Expr) (c : Int64) :
    Reports p.reasons (moved op p c) Expr.reasons := by
  intro site s
  rw [moved_eq]
  exact ⟨[], .of_eq rfl, by rw [List.append_nil, reasons_moveBy]⟩

/-- A unary operator that has a C counterpart keeps its operand. -/
theorem combined_unary_reports (op : Sym.Op) (a : Expr) (hop : op.isUnary = true)
    (hmask : op.mask? = none) :
    Reports a.reasons (combined op [a]) Expr.reasons := by
  cases op <;> first
    | contradiction
    | exact .pure (by rw [Expr.reasons])

/-- A binary operator that has a C counterpart keeps both operands. -/
theorem combined_binary_reports (op : Sym.Op) (a b : Expr) (hop : op.isPlainBinary = true) :
    Reports (a.reasons ++ b.reasons) (combined op [a, b]) Expr.reasons := by
  cases op <;> first
    | contradiction
    | exact .pure (by rw [Expr.reasons])

/-- The reasons inside a place. That there is no place is not reported yet. -/
def placeReasons : Except String Lval → List String
  | .ok l => l.reasons
  | .error _ => []

theorem placed_reports (place : Except String Lval) :
    Reports (placeReasons place) (placed place) Lval.reasons := by
  cases place with
  | ok l => exact .pure rfl
  | error reason =>
    exact (unresolvedExpr_reports _ reason).map fun e => by
      simp only [Lval.reasons, Offset.reasons, List.append_nil]

/-- A silent action whose result is a variable to go to. -/
theorem Silent.var_reports {x : LiftM Symbol} (hx : Silent x) :
    Reports [] (do return .ok (.var (← x) .none)) placeReasons :=
  hx.next fun s => .pure (by rw [placeReasons, Lval.reasons, Offset.reasons])

/-! ### The lifting functions -/

/-- An operator reports what its operands do: the one on the left before the other is lifted. -/
theorem liftSettled_apply_reports (op : Sym.Op) {args : List Sym.Expr}
    (hargs : ∀ a ∈ args, Reports [] (liftSettled a) Expr.reasons) :
    Reports [] (liftSettled (.apply op args)) Expr.reasons := by
  have h := liftSettled_apply op args
  generalize liftSettled (.apply op args) = x at h ⊢
  cases h with
  | slot => exact slotAddress_reports _
  | masked =>
    exact (hargs _ (by simp)).map fun e => by simp only [Expr.reasons, List.append_nil]
  | unary hop hmask =>
    exact (hargs _ (by simp)).bind fun e => combined_unary_reports op e hop hmask
  | moved => exact (hargs _ (by simp)).bind fun p => moved_reports _ p _
  | shifted =>
    refine (hargs _ (by simp)).bind fun e => ((hargs _ (by simp)).frame e.reasons).bind fun s => ?_
    exact globals_silent.next fun _ => .pure (by simp only [shiftRight, Expr.reasons])
  | byte =>
    exact (hargs _ (by simp)).map fun e => by simp only [byteAt, Expr.reasons, List.append_nil]
  | binary hop =>
    exact (hargs _ (by simp)).bind fun e => ((hargs _ (by simp)).frame e.reasons).bind fun f =>
      combined_binary_reports op e f hop
  | unresolved reason => exact unresolvedExpr_reports _ reason

mutual

theorem liftSettled_reports : ∀ x : Sym.Expr, Reports [] (liftSettled x) Expr.reasons
  | .const c => by
    rw [liftSettled]
    exact liftConstant_reports c
  | .var v => by
    rw [liftSettled]
    exact liftVariable_reports v
  | .apply op args => liftSettled_apply_reports op fun a _ => liftSettled_reports a
termination_by x => sizeOf x

theorem liftVariable_reports : ∀ v : Sym.Variable, Reports [] (liftVariable v) Expr.reasons
  | ⟨name, number, meaning⟩ => by
    unfold liftVariable
    split
    · exact (temporaryVariable_silent name).symbol_reports
    · split
      · exact (registerUse_silent _).symbol_reports
      · exact (localVariable_silent _).symbol_reports
      · refine (liftPlace_reports name _).bind fun place => (placed_reports place).map fun l => ?_
        rw [Expr.reasons]
      · exact liftFixed_reports name _
      · exact unresolvedExpr_reports _ _
termination_by x => sizeOf x

theorem liftFixed_reports (name : String) :
    ∀ value : Sym.FixedValue, Reports [] (liftFixed name value) Expr.reasons
  | .initialRegister r _ => by
    rw [liftFixed]
    exact liftInitialRegister_reports r
  | .initialMemory v => by
    rw [liftFixed]
    refine (stackFormal?_silent v).next fun formal => ?_
    split
    · exact .pure (reasons_ofSymbol _).symm
    · refine (liftLvalue_reports v).bind fun place => (placed_reports place).map fun l => ?_
      rw [Expr.reasons]
  | .returnValue callSite callee => by
    rw [liftFixed]
    exact liftReturnValue_reports name callSite callee
  | .symbolic _ x => by
    rw [liftFixed]
    exact liftSettled_reports x
termination_by x => sizeOf x

theorem liftLvalue_reports : ∀ v : Sym.Variable, Reports [] (liftLvalue v) placeReasons
  | ⟨name, number, meaning⟩ => by
    rw [liftLvalue]
    split
    · exact (temporaryVariable_silent name).var_reports
    · exact liftPlace_reports name meaning
termination_by x => sizeOf x

theorem liftPlace_reports (name : String) :
    ∀ meaning : Sym.Meaning, Reports [] (liftPlace name meaning) placeReasons
  | .register r => by
    rw [liftPlace]
    exact (localVariable_silent _).var_reports
  | .flag f => by
    rw [liftPlace]
    exact (localVariable_silent _).var_reports
  | .memory .localFrame _ .none => by
    rw [liftPlace]
    exact (localVariable_silent _).var_reports
  | .memory .localFrame _ (.const v sub) => by
    rw [liftPlace]
    refine (localVariable_silent _).next fun s => (liftOffset_reports sub s.type).map fun o => ?_
    rw [placeReasons, Lval.reasons]
  | .memory .localFrame _ (.field ..) | .memory .localFrame _ (.index ..)
  | .memory .localFrame _ (.indexVar ..) | .memory .localFrame _ .unknown
  | .memory .allocatedFrame _ _ | .memory .realignedFrame _ _ | .memory (.unknown _) _ _
  | .fixed _ | .absent => by
    simp only [liftPlace]
    exact .pure rfl
  | .memory .globals _ (.const v sub) => by
    rw [liftPlace]
    refine (globalAt_silent _).next fun found => ?_
    obtain ⟨s, distance⟩ := found
    have hvar (o : Offset) : o.reasons = placeReasons (.ok (.var s o)) := by
      rw [placeReasons, Lval.reasons]
    dsimp only
    split
    · exact (along_reports _ _ fun t => liftOffset_reports sub (some t)).map hvar
    · split
      · exact (liftOffset_reports sub none).map hvar
      · exact (unresolvedOffset_reports _).map hvar
  | .memory .globals _ .none | .memory .globals _ (.field ..) | .memory .globals _ (.index ..)
  | .memory .globals _ (.indexVar ..) | .memory .globals _ .unknown => by
    simp only [liftPlace]
    exact .pure rfl
  | .memory (.pointer v) _ offset => by
    rw [liftPlace]
    exact (liftVariable_reports v).bind fun p => (liftDeref_reports p offset).map fun l => rfl
termination_by x => sizeOf x

theorem liftDeref_reports (p : Expr) :
    ∀ o : Sym.Offset, Reports p.reasons (liftDeref p o) Lval.reasons
  | .none => by
    rw [liftDeref]
    exact .pure (by simp only [Lval.reasons, Offset.reasons, List.append_nil])
  | .unknown => by
    rw [liftDeref]
    exact ((unresolvedOffset_reports _).frame p.reasons).map fun o => by rw [Lval.reasons]
  | .field name key sub => by
    rw [liftDeref]
    refine globals_silent.next fun g => ?_
    refine ((liftOffset_reports sub (fieldType? g name key)).frame p.reasons).map fun o => ?_
    rw [Lval.reasons, Offset.reasons]
  | .const v sub => by
    rw [liftDeref]
    refine globals_silent.next fun g => read_silent.next fun site => ?_
    dsimp only
    split
    · rename_i t _
      have hsub := along_reports t v fun landing => liftOffset_reports sub (some landing)
      exact (hsub.frame p.reasons).map fun o => by rw [Lval.reasons]
    · split
      · have hsub := liftOffset_reports sub (targetType? g p)
        exact (hsub.frame p.reasons).map fun o => by rw [Lval.reasons]
      · refine ((liftOffset_reports sub none).frame p.reasons).map fun o => ?_
        simp only [Lval.reasons, Expr.reasons, List.append_nil]
  | .index i sub => by
    rw [liftDeref]
    refine globals_silent.next fun g => ((liftSettled_reports i).frame p.reasons).bind fun e => ?_
    have hsub := liftOffset_reports sub (targetType? g p)
    refine (hsub.frame (p.reasons ++ e.reasons)).map fun o => ?_
    rw [Lval.reasons, Expr.reasons]
  | .indexVar v elementSize sub => by
    rw [liftDeref]
    refine globals_silent.next fun g => ((liftVariable_reports v).frame p.reasons).bind fun i => ?_
    refine (measured_silent _).next fun size => ?_
    have hsub := liftOffset_reports sub (targetType? g p)
    refine (hsub.frame (p.reasons ++ i.reasons)).map fun o => ?_
    split <;> simp only [Lval.reasons, Expr.reasons, List.append_nil]
termination_by x => sizeOf x

theorem liftOffset_reports :
    ∀ (o : Sym.Offset) (host : Option Ty), Reports [] (liftOffset o host) Offset.reasons
  | .none, _ => by
    rw [liftOffset]
    exact .pure (by rw [Offset.reasons])
  | .const v sub, some host => by
    rw [liftOffset]
    refine globals_silent.next fun g => ?_
    exact along_reports _ v fun landing => liftOffset_reports sub (some landing)
  | .const v sub, none => by
    rw [liftOffset]
    split
    · exact liftOffset_reports sub none
    · exact unresolvedOffset_reports _
  | .field name key sub, _ => by
    rw [liftOffset]
    refine globals_silent.next fun g => ?_
    exact (liftOffset_reports sub (fieldType? g name key)).map fun o => by rw [Offset.reasons]
  | .index i sub, host => by
    rw [liftOffset]
    refine (liftSettled_reports i).bind fun e => globals_silent.next fun g => ?_
    exact ((liftOffset_reports sub _).frame e.reasons).map fun o => by rw [Offset.reasons]
  | .indexVar v elementSize sub, host => by
    rw [liftOffset]
    refine globals_silent.next fun g => (measured_silent _).next fun size => ?_
    split
    · exact unresolvedOffset_reports _
    · refine (liftVariable_reports v).bind fun e => ?_
      exact ((liftOffset_reports sub _).frame e.reasons).map fun o => by rw [Offset.reasons]
  | .unknown, _ => by
    rw [liftOffset]
    exact unresolvedOffset_reports _
termination_by x => sizeOf x

end

theorem liftExpr_reports (x : Sym.Expr) : Reports [] (liftExpr x) Expr.reasons :=
  liftSettled_reports _

/-- A hint takes the place of the report that the location is not known. -/
theorem liftLval_reports (v : Sym.Variable) (hint : Option Sym.Expr) :
    Reports [] (liftLval v hint) Lval.reasons := by
  refine (liftLvalue_reports v.settle).bind fun place => ?_
  split
  · refine read_silent.next fun site => (note_silent _).next fun _ => ?_
    refine (liftExpr_reports _).map fun e => ?_
    simp only [Lval.reasons, Offset.reasons, List.append_nil]
  · exact placed_reports place

theorem liftMemoryOffset_reports (o : Sym.Offset) (host : Option Ty) :
    Reports [] (liftMemoryOffset o host) Offset.reasons :=
  liftOffset_reports _ host

theorem Reports.reported {x : LiftM α} {reasons : α → List String} (hx : Reports [] x reasons)
    (site : Site) (s : Session) :
    Reported site.address (reasons (x site s).1) s (x site s).2 := by
  obtain ⟨new, hnew, h⟩ := hx site s
  rw [← h]
  exact hnew

/-- **Every gap is reported once, and every report is visible.** Whatever the session, the
configuration and the instruction at hand, the diagnostics that the lift of an expression, of an
lvalue or of an offset appends carry the reasons of the placeholders in its tree, in the order in
which the tree is read, and the address of the instruction. -/
theorem placeholders_reported_in_order (site : Site) (s : Session) :
    (∀ x, Reported site.address (liftExpr x site s).1.reasons s (liftExpr x site s).2) ∧
      (∀ v hint,
        Reported site.address (liftLval v hint site s).1.reasons s (liftLval v hint site s).2) ∧
      ∀ o host, Reported site.address (liftMemoryOffset o host site s).1.reasons s
        (liftMemoryOffset o host site s).2 :=
  ⟨fun x => (liftExpr_reports x).reported site s,
    fun v hint => (liftLval_reports v hint).reported site s,
    fun o host => (liftMemoryOffset_reports o host).reported site s⟩

end LiftM

end FactLift
