import FactLift.Lift.Operation
import FactLift.Proofs.Lift.Edits
import FactLift.Proofs.Provenance.Records

/-! The invariant of a lift.

`s.Tracks entries` says that the provenance holds exactly these instructions, that every number that
will be given out is free, and that no link was ever replaced. Lifting the parts of an instruction
keeps it (`Keeps`): values and places are numbered and linked, but no instruction is. -/

namespace FactLift

open C

/-! ### The invariant -/

/-- The provenance holds these instructions, nothing is known about the numbers that have not been
given out, and no link was replaced. -/
structure Session.Tracks (s : Session) (entries : List Traced) : Prop where
  records : s.provenance.Records entries s.nextInstr
  exprs : s.provenance.exprs.FreeFrom s.nextExpr
  lvals : s.provenance.lvals.FreeFrom s.nextLval
  clean : ∀ d ∈ s.diagnostics, d.kind ≠ .provenanceOverwrite

/-- The instruction tables are the same. -/
structure Provenance.SameInstrs (p p' : Provenance) : Prop where
  instrs : p'.instrs = p.instrs
  instructions : p'.instructions = p.instructions
  instrAddresses : p'.instrAddresses = p.instrAddresses
  spans : p'.spans = p.spans
  addressInstrs : p'.addressInstrs = p.addressInstrs

/-- The instruction tables and all links are the same. -/
structure Provenance.SameLinks (p p' : Provenance) : Prop extends p.SameInstrs p' where
  exprs : p'.exprs = p.exprs
  lvals : p'.lvals = p.lvals

namespace Provenance

variable {p p' p'' : Provenance} {entries : List Traced} {next : Nat}

theorem Records.congr (h : p.Records entries next) (hp : p.SameInstrs p') :
    p'.Records entries next where
  recorded e he := by
    have hold := h.recorded e he
    constructor
    · rw [hp.instrs]; exact hold.high
    · rw [hp.instrs]; exact hold.lows
    · rw [hp.instructions]; exact hold.low_kept
    · rw [hp.instructions]; exact hold.high_kept
    · rw [hp.instrAddresses]; exact hold.addresses
    · rw [hp.spans]; exact hold.spans
  ids_lt := h.ids_lt
  nodup := h.nodup
  instrsAt a := by
    show p'.addressInstrs.get a = _
    rw [hp.addressInstrs]
    exact h.instrsAt a
  mapped := by rw [hp.instrs]; exact h.mapped
  linked := by rw [hp.instrs]; exact h.linked
  kept := by rw [hp.instructions]; exact h.kept

theorem SameLinks.refl (p : Provenance) : p.SameLinks p := ⟨⟨rfl, rfl, rfl, rfl, rfl⟩, rfl, rfl⟩

theorem SameLinks.trans (h : p.SameLinks p') (h' : p'.SameLinks p'') : p.SameLinks p'' where
  instrs := h'.instrs.trans h.instrs
  instructions := h'.instructions.trans h.instructions
  instrAddresses := h'.instrAddresses.trans h.instrAddresses
  spans := h'.spans.trans h.spans
  addressInstrs := h'.addressInstrs.trans h.addressInstrs
  exprs := h'.exprs.trans h.exprs
  lvals := h'.lvals.trans h.lvals

/-! Dataflow facts, stores and conditions are kept apart from the links. -/

theorem sameLinks_addReachingDefs (p : Provenance) (e : Tracked Expr) (flows : List Flow) :
    p.SameLinks (p.addReachingDefs e flows) := by
  unfold addReachingDefs
  split
  · exact .refl p
  · exact ⟨⟨rfl, rfl, rfl, rfl, rfl⟩, rfl, rfl⟩

theorem sameLinks_addFlagReachingDefs (p : Provenance) (e : Tracked Expr) (flows : List Flow) :
    p.SameLinks (p.addFlagReachingDefs e flows) := by
  unfold addFlagReachingDefs
  split
  · exact .refl p
  · exact ⟨⟨rfl, rfl, rfl, rfl, rfl⟩, rfl, rfl⟩

theorem sameLinks_addDefUse (p : Provenance) (l : Tracked Lval) (flow : Option Flow) :
    p.SameLinks (p.addDefUse l flow) := by
  cases flow with
  | none => exact .refl p
  | some f => exact ⟨⟨rfl, rfl, rfl, rfl, rfl⟩, rfl, rfl⟩

theorem sameLinks_addDefUseHigh (p : Provenance) (l : Tracked Lval) (flow : Option Flow) :
    p.SameLinks (p.addDefUseHigh l flow) := by
  cases flow with
  | none => exact .refl p
  | some f => exact ⟨⟨rfl, rfl, rfl, rfl, rfl⟩, rfl, rfl⟩

theorem sameLinks_addStore (p : Provenance) (l : Tracked Lval) : p.SameLinks (p.addStore l) :=
  ⟨⟨rfl, rfl, rfl, rfl, rfl⟩, rfl, rfl⟩

theorem sameLinks_addConditionAddresses (p : Provenance) (e : Tracked Expr)
    (addresses : List UInt64) : p.SameLinks (p.addConditionAddresses e addresses) :=
  ⟨⟨rfl, rfl, rfl, rfl, rfl⟩, rfl, rfl⟩

end Provenance

namespace Session

variable {s s' : Session} {entries : List Traced}

/-- The invariant holds when a lift starts. -/
theorem tracks_start (w : Workspace) (function : String) : (Session.start w function).Tracks [] where
  records := .empty _
  exprs _ _ := Std.TreeMap.getElem?_emptyc
  lvals _ _ := Std.TreeMap.getElem?_emptyc
  clean _ hd := absurd hd List.not_mem_nil

/-- A report is fine unless it is about a link that was replaced. -/
theorem Tracks.report (h : s.Tracks entries) {d : Diagnostic} (hd : d.kind ≠ .provenanceOverwrite) :
    (s.report d).Tracks entries := by
  refine ⟨h.records, h.exprs, h.lvals, fun d' hd' => ?_⟩
  rcases List.mem_append.mp hd' with hd' | hd'
  · exact h.clean d' hd'
  · rw [List.mem_singleton.mp hd']
    exact hd

/-- Lifting a value keeps the invariant. -/
theorem Tracks.edits (h : s.Tracks entries) (hs : Relation.ReflTransGen Edit s s') :
    s'.Tracks entries := by
  induction hs with
  | refl => exact h
  | tail _ hstep ih =>
    cases hstep with
    | report d hd => exact ih.report fun hkind => by simp [hkind, DiagnosticKind.isPlaceholder] at hd
    | note | locals | temporary | stop | global => exact ⟨ih.records, ih.exprs, ih.lvals, ih.clean⟩

end Session

namespace LiftM

variable {α β : Type}

/-- An action after which the same instructions are tracked. -/
def Keeps (x : LiftM α) : Prop :=
  ∀ site s entries, s.Tracks entries → (x site s).2.Tracks entries

namespace Keeps

theorem pure (a : α) : Keeps (pure a : LiftM α) := fun _ _ _ h => h

theorem bind {x : LiftM α} {f : α → LiftM β} (hx : Keeps x) (hf : ∀ a, Keeps (f a)) :
    Keeps (x >>= f) :=
  fun site s entries h => hf (x site s).1 site _ entries (hx site s entries h)

theorem map {x : LiftM α} (hx : Keeps x) (f : α → β) : Keeps (do return f (← x)) :=
  hx.bind fun _ => .pure _

/-- Facts that have been handed out play no part. -/
theorem take {f : Session → α × Session} (h : ∀ s, ∃ q, (f s).2 = { s with pending := q }) :
    Keeps (modifyGet f) := by
  intro site s entries hs
  obtain ⟨q, hq⟩ := h s
  show (f s).2.Tracks entries
  rw [hq]
  exact ⟨hs.records, hs.exprs, hs.lvals, hs.clean⟩

end Keeps

theorem Edits.keeps {x : LiftM α} (hx : Edits x) : Keeps x :=
  fun site s _ h => h.edits (hx site s)

theorem report_keeps {kind : DiagnosticKind} (message : String) (h : kind ≠ .provenanceOverwrite) :
    Keeps (report kind message) :=
  fun _ _ _ hs => hs.report h

/-! ### Recording -/

theorem record_keeps {f : Provenance → Provenance} (hf : ∀ p : Provenance, p.SameLinks (f p)) :
    Keeps (record f) := by
  intro site s entries h
  have hp := hf s.provenance
  refine ⟨h.records.congr hp.toSameInstrs, ?_, ?_, h.clean⟩
  · show (f s.provenance).exprs.FreeFrom s.nextExpr
    rw [hp.exprs]
    exact h.exprs
  · show (f s.provenance).lvals.FreeFrom s.nextLval
    rw [hp.lvals]
    exact h.lvals

theorem recordBoth_keeps (x : Forms α) {f : Provenance → α → Provenance}
    (hf : ∀ (p : Provenance) a, p.SameLinks (f p a)) : Keeps (recordBoth x f) :=
  record_keeps fun p => (hf p x.low).trans (hf _ x.high)

/-- A mapping without a report only changes the provenance. -/
theorem recordMapping_run {f : Provenance → Provenance × Option Diagnostic} (site : Site)
    (s : Session) (h : (f s.provenance).2 = none) :
    (recordMapping f site s).2 = { s with provenance := (f s.provenance).1 } := by
  show (f s.provenance).2.elim { s with provenance := (f s.provenance).1 } _ = _
  rw [h]
  rfl

/-- Two forms are linked under numbers that nothing is linked under. -/
theorem linkExprs_run (low high : Expr) (site : Site) (s : Session)
    (hfree : s.provenance.exprs.FreeFrom s.nextExpr) :
    linkExprs low high site s =
      (⟨⟨s.nextExpr, low⟩, ⟨s.nextExpr + 1, high⟩⟩,
        { s with
          nextExpr := s.nextExpr + 2
          provenance := (s.provenance.mapExpr ⟨s.nextExpr, low⟩ ⟨s.nextExpr + 1, high⟩
            (some site.address)).1 }) := by
  let f (p : Provenance) := p.mapExpr ⟨s.nextExpr, low⟩ ⟨s.nextExpr + 1, high⟩ (some site.address)
  refine Prod.ext rfl ?_
  exact recordMapping_run (f := f) site { s with nextExpr := s.nextExpr + 2 }
    (hfree.register .expression (s.nextExpr + 1) (some site.address)).1

theorem linkLvals_run (low high : Lval) (site : Site) (s : Session)
    (hfree : s.provenance.lvals.FreeFrom s.nextLval) :
    linkLvals low high site s =
      (⟨⟨s.nextLval, low⟩, ⟨s.nextLval + 1, high⟩⟩,
        { s with
          nextLval := s.nextLval + 2
          provenance := (s.provenance.mapLval ⟨s.nextLval, low⟩ ⟨s.nextLval + 1, high⟩
            (some site.address)).1 }) := by
  let f (p : Provenance) := p.mapLval ⟨s.nextLval, low⟩ ⟨s.nextLval + 1, high⟩ (some site.address)
  refine Prod.ext rfl ?_
  exact recordMapping_run (f := f) site { s with nextLval := s.nextLval + 2 }
    (hfree.register .lvalue (s.nextLval + 1) (some site.address)).1

theorem linkExprs_keeps (low high : Expr) : Keeps (linkExprs low high) := by
  intro site s entries h
  rw [linkExprs_run low high site s h.exprs]
  exact ⟨h.records.congr ⟨rfl, rfl, rfl, rfl, rfl⟩, (h.exprs.register _ _ _).2, h.lvals, h.clean⟩

theorem linkLvals_keeps (low high : Lval) : Keeps (linkLvals low high) := by
  intro site s entries h
  rw [linkLvals_run low high site s h.lvals]
  exact ⟨h.records.congr ⟨rfl, rfl, rfl, rfl, rfl⟩, h.exprs, (h.lvals.register _ _ _).2, h.clean⟩

/-! ### The parts of an instruction -/

theorem liftValue_keeps (low high : Sym.Expr) (reaching : List Flow) :
    Keeps (liftValue low high reaching) := by
  refine (lowerExpr_steps low).edits.keeps.bind fun l => ?_
  refine (liftExpr_steps high).edits.keeps.bind fun h => ?_
  refine (linkExprs_keeps l h).bind fun forms => ?_
  exact (recordBoth_keeps forms fun p e => p.sameLinks_addReachingDefs e reaching).bind
    fun _ => .pure _

theorem liftTarget_keeps (v : Sym.Variable) (t : Option Ty) (hint : Option Sym.Expr) :
    Keeps (liftTarget v t hint) := by
  refine (lowerLval_steps v).edits.keeps.bind fun l => ?_
  refine (liftDefinition_edits v t hint).keeps.bind fun h => ?_
  refine (linkLvals_keeps l h).bind fun forms => ?_
  refine (Keeps.take fun s => ⟨_, rfl⟩).bind fun use => ?_
  refine (Keeps.take fun s => ⟨_, rfl⟩).bind fun useHigh => ?_
  refine (recordBoth_keeps forms fun p l => p.sameLinks_addDefUse l use).bind fun _ => ?_
  refine (record_keeps fun p => p.sameLinks_addDefUseHigh forms.high useHigh).bind fun _ => ?_
  cases h with
  | mem _ _ => exact (record_keeps fun p => p.sameLinks_addStore forms.high).bind fun _ => .pure _
  | var _ _ => exact .pure _

theorem recordConstant_edits (target : Sym.Variable) (value : Sym.Expr) :
    Edits (recordConstant target value) := by
  refine read_edits.bind fun site => locals_edits.bind fun l => ?_
  split
  · split
    · refine (note_edits _).bind fun _ => ?_
      exact .modifyGet fun s => .single (.locals s _)
    · exact .pure _
  · exact .pure _

theorem liftArguments_keeps (args : List Sym.Expr) : Keeps (liftArguments args) := by
  induction args with
  | nil => exact .pure _
  | cons x rest ih =>
    refine (Keeps.take fun s => ⟨_, rfl⟩).bind fun reaching => ?_
    exact (liftValue_keeps x x _).bind fun e => ih.map _

theorem liftReturn_keeps (value : Option (Forms Sym.Expr)) : Keeps (liftReturn value) := by
  cases value with
  | none => exact .pure _
  | some x =>
    refine Keeps.map ?_ _
    refine Keeps.map ((Keeps.take fun s => ⟨_, rfl⟩).bind fun reaching => ?_) some
    exact liftValue_keeps x.low x.high reaching

theorem liftCondition_keeps (low high : Sym.Expr) : Keeps (liftCondition low high) := by
  refine (lowerExpr_steps low).edits.keeps.bind fun l => ?_
  refine (liftExpr_steps high).edits.keeps.bind fun h => ?_
  refine (linkExprs_keeps l h).bind fun forms => ?_
  refine (Keeps.take fun s => ⟨_, rfl⟩).bind fun reaching => read_edits.keeps.bind fun site => ?_
  refine (recordBoth_keeps forms fun p e => p.sameLinks_addFlagReachingDefs e reaching).bind
    fun _ => ?_
  exact (recordBoth_keeps forms fun p e => p.sameLinks_addConditionAddresses e _).bind
    fun _ => .pure _

theorem liftBranch_keeps (target : UInt64) (cond : Option Sym.Expr) :
    Keeps (liftBranch target cond) := by
  cases cond with
  | none => exact .pure _
  | some x => exact (liftCondition_keeps x x).map _

end LiftM

end FactLift
