import FactLift.Proofs.C.Unnumbered
import FactLift.Proofs.Lift.Operation
import FactLift.Proofs.Lift.Twins

/-! Lifting the parts of an instruction twice, over different global symbols.

The trees that are lifted are the same but for their numbers (`ExprTwins`, `LvalTwins`), and so are
the instructions and statements that they become part of (`InstrsAlike`, `StmtsAlike`). -/

namespace FactLift

open C

namespace Pairing

variable {c : Pairing} {α β : Type}

/-- The two forms of something are related one by one. -/
def Both (R : α → α → Prop) (x x' : Forms α) : Prop := R x.low x'.low ∧ R x.high x'.high

variable (c)

/-- Expressions that differ in the start of their numbers. -/
def ExprTwins : Tracked Expr → Tracked Expr → Prop :=
  Provenance.ShiftedTree c.left.numbers.expr c.right.numbers.expr

/-- Lvalues that differ in the start of their numbers. -/
def LvalTwins : Tracked Lval → Tracked Lval → Prop :=
  Provenance.ShiftedTree c.left.numbers.lval c.right.numbers.lval

variable {c}

/-! ### Recording -/

theorem record_agrees {f f' : Provenance → Provenance}
    (hf : ∀ now now' p p',
      Provenance.Shifted c.left.numbers c.right.numbers now now' p p' →
        Provenance.Shifted c.left.numbers c.right.numbers now now' (f p) (f' p')) :
    c.Agrees Eq (LiftM.record f) (LiftM.record f') :=
  fun _ _ _ hs => ⟨rfl, hs.globals, hs.made, hs.locals, hs.temporaries, hs.diagnostics, hs.pending,
    hf _ _ _ _ hs.provenance⟩

/-- Recording what is not resolved later. -/
theorem record_unresolved {f f' : Provenance → Provenance}
    (hf : ∀ p : Provenance, p.SameFacts (f p)) (hf' : ∀ p : Provenance, p.SameFacts (f' p)) :
    c.Agrees Eq (LiftM.record f) (LiftM.record f') :=
  record_agrees fun _ _ p p' h => h.congr (hf p) (hf' p')

theorem take_same {f : Pending → α × Pending} :
    c.Same (modifyGet fun s : Session =>
      ((f s.pending).1, { s with pending := (f s.pending).2 })) := by
  refine .modifyGet fun s s' hs => ?_
  have hpending := hs.pending
  simp only [hpending]
  exact ⟨trivial, hs.globals, hs.made, hs.locals, hs.temporaries, hs.diagnostics, rfl,
    hs.provenance⟩

theorem linkExprs_agrees (low high : Expr) :
    c.Agrees (Both c.ExprTwins) (LiftM.linkExprs low high) (LiftM.linkExprs low high) := by
  intro site s s' hs
  have hp := hs.provenance
  obtain ⟨n, hn, hn'⟩ := hp.exprs
  rw [LiftM.linkExprs_run low high site s hp.freeExprs.1,
    LiftM.linkExprs_run low high site s' hp.freeExprs.2]
  refine ⟨⟨⟨⟨n, hn, hn'⟩, rfl⟩, ⟨⟨n + 1, congrArg (· + 1) hn, congrArg (· + 1) hn'⟩, rfl⟩⟩, ?_⟩
  refine ⟨hs.globals, hs.made, hs.locals, hs.temporaries, hs.diagnostics, hs.pending, ?_⟩
  exact ⟨⟨n + 2, congrArg (· + 2) hn, congrArg (· + 2) hn'⟩, hp.lvals, hp.freeInstrs,
    ⟨(hp.freeExprs.1.register _ _ _).2, (hp.freeExprs.2.register _ _ _).2⟩, hp.freeLvals, hp.flags,
    hp.uses, hp.usesHigh, hp.covered⟩

theorem linkLvals_agrees (low high : Lval) :
    c.Agrees (Both c.LvalTwins) (LiftM.linkLvals low high) (LiftM.linkLvals low high) := by
  intro site s s' hs
  have hp := hs.provenance
  obtain ⟨n, hn, hn'⟩ := hp.lvals
  rw [LiftM.linkLvals_run low high site s hp.freeLvals.1,
    LiftM.linkLvals_run low high site s' hp.freeLvals.2]
  refine ⟨⟨⟨⟨n, hn, hn'⟩, rfl⟩, ⟨⟨n + 1, congrArg (· + 1) hn, congrArg (· + 1) hn'⟩, rfl⟩⟩, ?_⟩
  refine ⟨hs.globals, hs.made, hs.locals, hs.temporaries, hs.diagnostics, hs.pending, ?_⟩
  exact ⟨hp.exprs, ⟨n + 2, congrArg (· + 2) hn, congrArg (· + 2) hn'⟩, hp.freeInstrs, hp.freeExprs,
    ⟨(hp.freeLvals.1.register _ _ _).2, (hp.freeLvals.2.register _ _ _).2⟩, hp.flags, hp.uses,
    hp.usesHigh, hp.covered⟩

/-! ### The parts of an instruction -/

theorem recordBoth_unresolved {x x' : Forms α} {f : Provenance → α → Provenance}
    (hf : ∀ p a, Provenance.SameFacts p (f p a)) :
    c.Agrees Eq (LiftM.recordBoth x f) (LiftM.recordBoth x' f) :=
  record_agrees fun _ _ _ _ h =>
    (h.congr (hf _ x.low) (hf _ x'.low)).congr (hf _ x.high) (hf _ x'.high)

theorem liftValue_agrees {low high : Sym.Expr} (reaching : List Flow)
    (hlow : low.lookups ⊆ c.asks) (hhigh : high.lookups ⊆ c.asks) :
    c.Agrees (Both c.ExprTwins) (LiftM.liftValue low high reaching)
      (LiftM.liftValue low high reaching) := by
  refine .bind (lowerExpr_same low hlow) fun l _ hl => hl ▸ ?_
  refine .bind (liftExpr_same hhigh) fun h _ hh => hh ▸ ?_
  refine .bind (linkExprs_agrees l h) fun forms forms' hforms => ?_
  exact .bind (recordBoth_unresolved fun p e => p.sameFacts_addReachingDefs e reaching)
    fun _ _ _ => .pure hforms

theorem takeReachingDef_same : c.Same LiftM.takeReachingDef :=
  take_same (f := fun p =>
    (p.reachingDefs.head?.bind Fact.value?, { p with reachingDefs := p.reachingDefs.drop 1 }))

theorem takeReachingDefs_same : c.Same LiftM.takeReachingDefs :=
  take_same (f := fun p => (p.reachingDefs.filterMap Fact.value?, { p with reachingDefs := [] }))

theorem takeFlagReachingDefs_same : c.Same LiftM.takeFlagReachingDefs :=
  take_same (f := fun p =>
    (p.flagReachingDefs.filterMap Fact.value?, { p with flagReachingDefs := [] }))

theorem takeDefUse_same : c.Same LiftM.takeDefUse :=
  take_same (f := fun p =>
    (p.defUses.head?.bind Fact.value?, { p with defUses := p.defUses.drop 1 }))

theorem takeDefUseHigh_same : c.Same LiftM.takeDefUseHigh :=
  take_same (f := fun p =>
    (p.defUsesHigh.head?.bind Fact.value?, { p with defUsesHigh := p.defUsesHigh.drop 1 }))

theorem liftTarget_agrees {v : Sym.Variable} (t : Option Ty) {hint : Option Sym.Expr}
    (hv : v.lookups ⊆ c.asks) (hhint : ∀ x ∈ hint, x.lookups ⊆ c.asks) :
    c.Agrees (Both c.LvalTwins) (LiftM.liftTarget v t hint) (LiftM.liftTarget v t hint) := by
  refine .bind (lowerLval_same hv) fun l _ hl => hl ▸ ?_
  refine .bind (liftDefinition_same t hv hhint) fun h _ hh => hh ▸ ?_
  refine .bind (linkLvals_agrees l h) fun forms forms' hforms => ?_
  refine .bind takeDefUse_same fun use _ huse => huse ▸ ?_
  refine .bind takeDefUseHigh_same fun useHigh _ huseHigh => huseHigh ▸ ?_
  refine .bind (record_agrees fun _ _ _ _ hp =>
    (hp.addDefUse hforms.1 use).addDefUse hforms.2 use) fun _ _ _ => ?_
  refine .bind (record_agrees fun _ _ _ _ hp => hp.addDefUseHigh hforms.2 useHigh) fun _ _ _ => ?_
  cases h with
  | mem _ _ =>
    exact .bind (record_unresolved (fun p => p.sameFacts_addStore forms.high)
      fun p => p.sameFacts_addStore forms'.high) fun _ _ _ => .pure hforms
  | var _ _ => exact .pure hforms

theorem recordConstant_same (target : Sym.Variable) (value : Sym.Expr) :
    c.Same (LiftM.recordConstant target value) := by
  refine read_same.bind fun site => locals_same.bind fun l => ?_
  split
  · split
    · refine (note_same _).bind fun _ => ?_
      exact .modifyGet fun s s' hs => ⟨rfl, hs.modifyLocals fun l => l.setConstant _ _⟩
    · exact .pure _
  · exact .pure _

def InstrsAlike (i i' : Forms Instr) : Prop := i.map unnumberedInstr = i'.map unnumberedInstr

def StmtsAlike (s s' : Forms Stmt) : Prop := s.map Stmt.unnumbered = s'.map Stmt.unnumbered

theorem unnumbered_eq {start start' : Nat} {t t' : Tracked α}
    (h : Provenance.ShiftedTree start start' t t') : t.unnumbered = t'.unnumbered := by
  rw [Tracked.unnumbered, Tracked.unnumbered, h.tree]

theorem linkInstrs_agrees {actions actions' : Forms Action}
    (h : actions.map Action.unnumbered = actions'.map Action.unnumbered) :
    c.Agrees InstrsAlike (LiftM.linkInstrs actions) (LiftM.linkInstrs actions') := by
  intro site s s' hs
  have hp := hs.provenance
  rw [LiftM.linkInstrs_run actions site s hp.freeInstrs.1,
    LiftM.linkInstrs_run actions' site s' hp.freeInstrs.2]
  constructor
  · simp only [InstrsAlike, Forms.map, Forms.mk.injEq, unnumberedInstr, Tracked.mk.injEq] at h ⊢
    exact ⟨⟨trivial, h.1⟩, trivial, h.2⟩
  · refine ⟨hs.globals, hs.made, hs.locals, hs.temporaries, hs.diagnostics, hs.pending, ?_⟩
    refine Provenance.Shifted.addAddresses (.addAddresses ?_ _ _ _) _ _ _
    exact ⟨hp.exprs, hp.lvals,
      ⟨(hp.freeInstrs.1.register _ _ _).2, (hp.freeInstrs.2.register _ _ _).2⟩, hp.freeExprs,
      hp.freeLvals, hp.flags, hp.uses, hp.usesHigh, hp.covered⟩

theorem liftAssign_agrees {target : Sym.Variable} {low high : Sym.Expr} {hint : Option Sym.Expr}
    (htarget : target.lookups ⊆ c.asks) (hlow : low.lookups ⊆ c.asks)
    (hhigh : high.lookups ⊆ c.asks) (hhint : ∀ x ∈ hint, x.lookups ⊆ c.asks) :
    c.Agrees InstrsAlike (LiftM.liftAssign target low high hint)
      (LiftM.liftAssign target low high hint) := by
  refine .bind takeReachingDefs_same fun reaching _ h => h ▸ ?_
  refine .bind (liftValue_agrees reaching hlow hhigh) fun value value' hvalue => ?_
  refine .globals fun g g' hg => ?_
  have htype : value.high.tree.typeOf g = value'.high.tree.typeOf g' := by
    rw [hvalue.2.tree, hg.typeOf]
  rw [htype]
  refine .bind (liftTarget_agrees _ htarget hhint) fun place place' hplace => ?_
  refine .bind (recordConstant_same target high) fun _ _ _ => linkInstrs_agrees ?_
  simp only [Forms.map, Action.unnumbered, unnumbered_eq hplace.1, unnumbered_eq hplace.2,
    unnumbered_eq hvalue.1, unnumbered_eq hvalue.2]

/-- A function that is called by name is asked for. -/
theorem liftCallee_same {name : Option String} {address : Option Sym.Expr}
    (hname : ∀ n ∈ name, .function n ∈ c.asks) (haddress : ∀ x ∈ address, x.lookups ⊆ c.asks) :
    c.Same (LiftM.liftCallee name address) := by
  unfold LiftM.liftCallee
  split
  next n => exact (functionNamed_same (hname n rfl)).map _
  next x =>
    exact (lowerExpr_same x (haddress x rfl)).bind fun low => (liftExpr_same (haddress x rfl)).map _
  next => exact (unresolvedExpr_same _ _).map _

theorem liftArguments_agrees (args : List Sym.Expr) (h : ∀ x ∈ args, x.lookups ⊆ c.asks) :
    c.Agrees (List.Forall₂ (Both c.ExprTwins)) (LiftM.liftArguments args)
      (LiftM.liftArguments args) := by
  induction args with
  | nil => exact .pure .nil
  | cons x rest ih =>
    have hx := h x List.mem_cons_self
    refine .bind takeReachingDef_same fun reaching _ hr => hr ▸ ?_
    refine .bind (liftValue_agrees _ hx hx) fun e e' he => ?_
    refine .bind (ih fun y hy => h y (List.mem_cons_of_mem _ hy)) fun es es' hes => ?_
    exact .pure (.cons he hes)

theorem map_unnumbered_eq {R : Tracked α → Tracked α → Prop}
    (hR : ∀ t t', R t t' → t.unnumbered = t'.unnumbered) {ts ts' : List (Forms (Tracked α))}
    (h : List.Forall₂ (Both R) ts ts') :
    (ts.map fun t => t.low.unnumbered) = ts'.map (fun t => t.low.unnumbered) ∧
      (ts.map fun t => t.high.unnumbered) = ts'.map fun t => t.high.unnumbered := by
  induction h with
  | nil => exact ⟨rfl, rfl⟩
  | cons ht _ ih =>
    simp only [List.map_cons, hR _ _ ht.1, hR _ _ ht.2, ih.1, ih.2, and_self]

/-- What may be lifted is lifted to related forms, if it is there. -/
theorem Agrees.mapM {R : β → β → Prop} {f : α → LiftM β} {x : Option α}
    (h : ∀ a ∈ x, c.Agrees R (f a) (f a)) :
    c.Agrees (Option.Rel R) (x.mapM f) (x.mapM f) := by
  cases x with
  | none => exact .pure .none
  | some a => exact .bind (h a rfl) fun _ _ hb => .pure (.some hb)

theorem optionMap_unnumbered_eq {R : Tracked α → Tracked α → Prop}
    (hR : ∀ t t', R t t' → t.unnumbered = t'.unnumbered) {x x' : Option (Forms (Tracked α))}
    (h : Option.Rel (Both R) x x') :
    (x.map fun t => t.low.unnumbered) = x'.map (fun t => t.low.unnumbered) ∧
      (x.map fun t => t.high.unnumbered) = x'.map fun t => t.high.unnumbered := by
  cases h with
  | none => exact ⟨rfl, rfl⟩
  | some ht => simp only [Option.map_some, hR _ _ ht.1, hR _ _ ht.2, and_self]

theorem liftCall_agrees {target : Option Sym.Variable} {name : Option String}
    {address : Option Sym.Expr} {args : List Sym.Expr} (htarget : ∀ v ∈ target, v.lookups ⊆ c.asks)
    (hname : ∀ n ∈ name, .function n ∈ c.asks) (haddress : ∀ x ∈ address, x.lookups ⊆ c.asks)
    (hargs : ∀ x ∈ args, x.lookups ⊆ c.asks) :
    c.Agrees InstrsAlike (LiftM.liftCall target name address args)
      (LiftM.liftCall target name address args) := by
  refine .bind (liftCallee_same hname haddress) fun callee _ h => h ▸ ?_
  refine .bind (liftArguments_agrees args hargs) fun es es' hes => ?_
  refine .bind (.mapM fun v hv => liftTarget_agrees none (htarget v hv) nofun)
    fun place place' hplace => linkInstrs_agrees ?_
  have hes := map_unnumbered_eq (fun _ _ => unnumbered_eq) hes
  have hplace := optionMap_unnumbered_eq (fun _ _ => unnumbered_eq) hplace
  simp [Forms.map, Action.unnumbered, Function.comp_def, hes.1, hes.2, hplace.1, hplace.2]

theorem liftReturn_agrees {value : Option (Forms Sym.Expr)}
    (h : ∀ x ∈ value, x.low.lookups ⊆ c.asks ∧ x.high.lookups ⊆ c.asks) :
    c.Agrees StmtsAlike (LiftM.liftReturn value) (LiftM.liftReturn value) := by
  refine Agrees.bind (R := Option.Rel (Both c.ExprTwins)) (.mapM fun x hx => ?_)
    fun value value' hvalue => .pure ?_
  · exact .bind takeReachingDefs_same fun reaching _ hr =>
      hr ▸ liftValue_agrees _ (h x hx).1 (h x hx).2
  · have hvalue := optionMap_unnumbered_eq (fun _ _ => unnumbered_eq) hvalue
    simp [StmtsAlike, Forms.map, Stmt.ofBody, Stmt.unnumbered, StmtBody.unnumbered,
      Function.comp_def, hvalue.1, hvalue.2]

theorem liftCondition_agrees {low high : Sym.Expr} (hlow : low.lookups ⊆ c.asks)
    (hhigh : high.lookups ⊆ c.asks) :
    c.Agrees (Both c.ExprTwins) (LiftM.liftCondition low high) (LiftM.liftCondition low high) := by
  refine .bind (lowerExpr_same low hlow) fun l _ hl => hl ▸ ?_
  refine .bind (liftExpr_same hhigh) fun h _ hh => hh ▸ ?_
  refine .bind (linkExprs_agrees l h) fun forms forms' hforms => ?_
  refine .bind takeFlagReachingDefs_same fun reaching _ hr => hr ▸ ?_
  refine .bind read_same fun site _ hsite => hsite ▸ ?_
  refine .bind (record_agrees fun _ _ _ _ hp =>
    (hp.addFlagReachingDefs hforms.1 reaching).addFlagReachingDefs hforms.2 reaching)
    fun _ _ _ => ?_
  exact .bind (recordBoth_unresolved fun p e => p.sameFacts_addConditionAddresses e [site.address])
    fun _ _ _ => .pure hforms

theorem liftBranch_agrees (target : UInt64) {cond : Option Sym.Expr}
    (h : ∀ x ∈ cond, x.lookups ⊆ c.asks) :
    c.Agrees StmtsAlike (LiftM.liftBranch target cond) (LiftM.liftBranch target cond) := by
  cases cond with
  | none => exact .pure rfl
  | some x =>
    refine .bind (liftCondition_agrees (h x rfl) (h x rfl)) fun e e' he => .pure ?_
    simp [StmtsAlike, Forms.map, Stmt.ofBody, Stmt.unnumbered, StmtBody.unnumbered,
      unnumbered_eq he.1, unnumbered_eq he.2]

end Pairing

end FactLift
