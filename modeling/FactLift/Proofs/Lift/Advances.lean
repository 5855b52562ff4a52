import FactLift.Proofs.Lift.Operation
import FactLift.Proofs.Provenance.Facts

/-! What lifting an instruction does to the session.

Besides the edits that lifting its values makes, it hands out dataflow facts, numbers trees, and
records what is known about them. Dataflow facts are only ever recorded about trees that were
numbered on the way. `Session.Advance` lists the single changes, and `Advances x` says that an action
is a sequence of them. So the facts of all earlier nodes stay as they are
(`Session.facts?_of_advances`). -/

namespace FactLift

open C

namespace Recording

variable {first bound : FlowKind → Nat}

/-- Every node that a call attaches facts to is one of these. -/
def AttachesWithin (first bound : FlowKind → Nat) (call : Recording) : Prop :=
  ∀ kind node flows, call.attachment? kind = some (node, flows) →
    first kind ≤ node ∧ node < bound kind

namespace AttachesWithin

theorem nothing {call : Recording} (h : FlowKind.all.all fun kind => (call.attachment? kind).isNone) :
    call.AttachesWithin first bound := by
  intro kind node flows hsome
  have hnone : (call.attachment? kind).isNone :=
    List.all_eq_true.mp h kind (by cases kind <;> decide)
  simp [hsome] at hnone

theorem reachingDefs {e : Tracked Expr} (flows : List Flow)
    (h : first .reachingDef ≤ e.id ∧ e.id < bound .reachingDef) :
    (addReachingDefs e flows).AttachesWithin first bound := by
  intro kind node flows' hsome
  cases kind <;> simp only [attachment?, reduceCtorEq, Option.ite_none_left_eq_some,
    Option.some.injEq, Prod.mk.injEq] at hsome
  exact hsome.2.1 ▸ h

theorem flagReachingDefs {e : Tracked Expr} (flows : List Flow)
    (h : first .flagReachingDef ≤ e.id ∧ e.id < bound .flagReachingDef) :
    (addFlagReachingDefs e flows).AttachesWithin first bound := by
  intro kind node flows' hsome
  cases kind <;> simp only [attachment?, reduceCtorEq, Option.ite_none_left_eq_some,
    Option.some.injEq, Prod.mk.injEq] at hsome
  exact hsome.2.1 ▸ h

theorem defUse {l : Tracked Lval} (flow : Option Flow)
    (h : first .defUse ≤ l.id ∧ l.id < bound .defUse) :
    (addDefUse l flow).AttachesWithin first bound := by
  intro kind node flows' hsome
  cases kind <;> simp only [attachment?, reduceCtorEq, Option.map_eq_some_iff,
    Prod.mk.injEq] at hsome
  obtain ⟨_, _, rfl, _⟩ := hsome
  exact h

theorem defUseHigh {l : Tracked Lval} (flow : Option Flow)
    (h : first .defUseHigh ≤ l.id ∧ l.id < bound .defUseHigh) :
    (addDefUseHigh l flow).AttachesWithin first bound := by
  intro kind node flows' hsome
  cases kind <;> simp only [attachment?, reduceCtorEq, Option.map_eq_some_iff,
    Prod.mk.injEq] at hsome
  obtain ⟨_, _, rfl, _⟩ := hsome
  exact h

end AttachesWithin

end Recording

namespace Session

variable {s s' s'' : Session}

/-! ### Recording -/

/-- The number of the next node that facts of a kind can be about. -/
def nextNode (s : Session) : FlowKind → Nat
  | .reachingDef | .flagReachingDef => s.nextExpr
  | .defUse | .defUseHigh => s.nextLval

/-- Makes a call on the provenance, and reports what there is to report. -/
def record (s : Session) (call : Recording) : Session :=
  let (provenance, report) := s.provenance.record call
  report.elim { s with provenance } fun d => { s with provenance }.report d

/-- Makes calls one after the other. -/
def recordAll (s : Session) (calls : List Recording) : Session :=
  calls.foldl record s

/-- Only the provenance, the diagnostics and the log change. -/
theorem record_eq (s : Session) (call : Recording) :
    s.record call =
      { s with
        log := (s.record call).log
        provenance := (s.provenance.record call).1
        diagnostics := s.diagnostics ++ (s.provenance.record call).2.toList } := by
  unfold record
  rcases s.provenance.record call with ⟨p, _ | d⟩
  · simp
  · rfl

theorem record_nextNode (s : Session) (call : Recording) : (s.record call).nextNode = s.nextNode := by
  rw [record_eq]
  rfl

theorem record_facts? (s : Session) (call : Recording) (kind : FlowKind) (node : Nat) :
    (s.record call).provenance.facts? kind node =
      (call.attached? kind node).or (s.provenance.facts? kind node) := by
  rw [record_eq]
  exact Provenance.facts?_record kind node s.provenance call

theorem recordAll_frame (s : Session) (calls : List Recording) :
    (s.recordAll calls).nextNode = s.nextNode ∧ (s.recordAll calls).pending = s.pending := by
  induction calls generalizing s with
  | nil => exact ⟨rfl, rfl⟩
  | cons call calls ih =>
    obtain ⟨hnext, hpending⟩ := ih (s.record call)
    have hcall : (s.record call).pending = s.pending := by rw [record_eq]
    exact ⟨hnext.trans (record_nextNode s call), hpending.trans hcall⟩

/-! ### Single changes -/

/-- A change that lifting an instruction makes to the session, if it began when the nodes from
`first` on had not been numbered. -/
inductive Advance (first : FlowKind → Nat) : Session → Session → Prop
  | edit {s s' : Session} (h : Edit s s') : Advance first s s'
  | handOut (s : Session) (pending : Pending) : Advance first s { s with pending }
  | number (s : Session) (exprs lvals instrs : Nat) :
    Advance first s
      { s with
        nextExpr := s.nextExpr + exprs
        nextLval := s.nextLval + lvals
        nextInstr := s.nextInstr + instrs }
  | record (s : Session) (call : Recording) (h : call.AttachesWithin first s.nextNode) :
    Advance first s (s.record call)

/-- What lifting a value leaves alone. -/
theorem Edit.frame (h : Edit s s') :
    s'.provenance = s.provenance ∧ s'.nextExpr = s.nextExpr ∧ s'.nextLval = s.nextLval ∧
      s'.pending = s.pending := by
  cases h <;> exact ⟨rfl, rfl, rfl, rfl⟩

theorem edits_frame (h : Relation.ReflTransGen Edit s s') :
    s'.provenance = s.provenance ∧ s'.nextExpr = s.nextExpr ∧ s'.nextLval = s.nextLval ∧
      s'.pending = s.pending := by
  induction h with
  | refl => exact ⟨rfl, rfl, rfl, rfl⟩
  | tail _ hstep ih =>
    obtain ⟨hp, he, hl, hq⟩ := hstep.frame
    exact ⟨hp.trans ih.1, he.trans ih.2.1, hl.trans ih.2.2.1, hq.trans ih.2.2.2⟩

namespace Advance

variable {first first' : FlowKind → Nat}

/-- A lift that began earlier makes the same changes. -/
theorem mono (h : Advance first s s') (hfirst : ∀ kind, first' kind ≤ first kind) :
    Advance first' s s' := by
  cases h with
  | edit h => exact .edit h
  | handOut pending => exact .handOut s pending
  | number exprs lvals instrs => exact .number s exprs lvals instrs
  | record call h =>
    refine .record s call fun kind node flows hcall => ?_
    obtain ⟨hle, hlt⟩ := h kind node flows hcall
    exact ⟨Nat.le_trans (hfirst kind) hle, hlt⟩

theorem nextNode_le (h : Advance first s s') (kind : FlowKind) :
    s.nextNode kind ≤ s'.nextNode kind := by
  cases h with
  | edit h =>
    obtain ⟨-, he, hl, -⟩ := h.frame
    cases kind <;> simp [nextNode, he, hl]
  | handOut => exact Nat.le_refl _
  | number => cases kind <;> exact Nat.le_add_right _ _
  | record call => exact Nat.le_of_eq (congrFun (record_nextNode s call) kind).symm

/-- Reports are appended. -/
theorem diagnostics (h : Advance first s s') : ∃ ds, s'.diagnostics = s.diagnostics ++ ds := by
  cases h with
  | edit h =>
    cases h with
    | report d _ => exact ⟨[d], rfl⟩
    | note | locals | temporary | global | stop => exact ⟨[], (List.append_nil _).symm⟩
  | handOut | number => exact ⟨[], (List.append_nil _).symm⟩
  | record call _ => exact ⟨_, by rw [record_eq]⟩

/-- **The step.** Nodes that were numbered before the lift began keep their facts, and those that
are not numbered yet get none. -/
theorem facts? (h : Advance first s s') {kind : FlowKind} {node : Nat}
    (hnode : node < first kind ∨ s'.nextNode kind ≤ node) :
    s'.provenance.facts? kind node = s.provenance.facts? kind node := by
  cases h with
  | edit h => rw [h.frame.1]
  | handOut => rfl
  | number => rfl
  | record call h =>
    have hother : call.attached? kind node = none := by
      rw [Recording.attached?]
      cases hcall : call.attachment? kind with
      | none => rfl
      | some attachment =>
        obtain ⟨hle, hlt⟩ := h kind attachment.1 attachment.2 hcall
        rw [record_nextNode] at hnode
        have hne : attachment.1 ≠ node := by omega
        simp [Option.filter, hne]
    rw [record_facts?, hother, Option.none_or]

end Advance

/-! ### Sequences of changes -/

variable {first first' : FlowKind → Nat}

theorem advances_mono (h : Relation.ReflTransGen (Advance first) s s')
    (hfirst : ∀ kind, first' kind ≤ first kind) : Relation.ReflTransGen (Advance first') s s' :=
  Relation.ReflTransGen.mono (fun _ _ hstep => hstep.mono hfirst) _ _ h

theorem nextNode_le_of_advances (h : Relation.ReflTransGen (Advance first) s s') (kind : FlowKind) :
    s.nextNode kind ≤ s'.nextNode kind := by
  induction h with
  | refl => exact Nat.le_refl _
  | tail _ hstep ih => exact Nat.le_trans ih (hstep.nextNode_le kind)

/-- **The run.** -/
theorem facts?_of_advances (h : Relation.ReflTransGen (Advance first) s s') {kind : FlowKind}
    {node : Nat} (hnode : node < first kind ∨ s'.nextNode kind ≤ node) :
    s'.provenance.facts? kind node = s.provenance.facts? kind node := by
  induction h with
  | refl => rfl
  | tail _ hstep ih =>
    have hle := hstep.nextNode_le kind
    exact (hstep.facts? hnode).trans (ih (hnode.imp_right (Nat.le_trans hle)))

theorem edits_advance (h : Relation.ReflTransGen Edit s s') :
    Relation.ReflTransGen (Advance first) s s' :=
  Relation.ReflTransGen.mono (fun _ _ => .edit) _ _ h

/-- No report is taken back. -/
theorem advances_diagnostics (h : Relation.ReflTransGen (Advance first) s s') :
    ∃ ds, s'.diagnostics = s.diagnostics ++ ds := by
  induction h with
  | refl => exact ⟨[], (List.append_nil _).symm⟩
  | tail _ hstep ih =>
    obtain ⟨ds, hds⟩ := ih
    obtain ⟨ds', hds'⟩ := hstep.diagnostics
    exact ⟨ds ++ ds', by rw [hds', hds, List.append_assoc]⟩

/-- Calls that attach facts to nodes that were numbered on the way. -/
theorem recordAll_advances {bound : FlowKind → Nat} (calls : List Recording)
    (hbound : s.nextNode = bound) (h : ∀ call ∈ calls, call.AttachesWithin first bound) :
    Relation.ReflTransGen (Advance first) s (s.recordAll calls) := by
  induction calls generalizing s with
  | nil => exact .refl
  | cons call calls ih =>
    obtain ⟨hcall, hrest⟩ := List.forall_mem_cons.mp h
    exact .head (.record s call (hbound ▸ hcall)) (ih ((record_nextNode s call).trans hbound) hrest)

end Session

namespace LiftM

variable {α β : Type}

/-- An action that makes such changes only, from where it begins. -/
def Advances (x : LiftM α) : Prop :=
  ∀ site s, Relation.ReflTransGen (Session.Advance s.nextNode) s (x site s).2

namespace Advances

theorem pure (a : α) : Advances (pure a : LiftM α) := fun _ _ => .refl

theorem bind {x : LiftM α} {f : α → LiftM β} (hx : Advances x) (hf : ∀ a, Advances (f a)) :
    Advances (x >>= f) := fun site s =>
  (hx site s).trans (Session.advances_mono (hf (x site s).1 site (x site s).2)
    (Session.nextNode_le_of_advances (hx site s)))

theorem map {x : LiftM α} (hx : Advances x) (f : α → β) : Advances (do return f (← x)) :=
  hx.bind fun _ => .pure _

theorem handOut {f : Session → α × Session} (h : ∀ s, ∃ q, (f s).2 = { s with pending := q }) :
    Advances (modifyGet f) := by
  intro site s
  obtain ⟨q, hq⟩ := h s
  show Relation.ReflTransGen _ s (f s).2
  rw [hq]
  exact .single (.handOut s q)

end Advances

theorem Edits.advances {x : LiftM α} (hx : Edits x) : Advances x :=
  fun site s => Session.edits_advance (hx site s)

/-! ### Values and places

The two forms of a value or a place are numbered, and then facts are attached to them. -/

/-- The two forms of an expression that is numbered next. -/
def nextExprs (s : Session) (low high : Expr) : Forms (Tracked Expr) :=
  ⟨⟨s.nextExpr, low⟩, ⟨s.nextExpr + 1, high⟩⟩

/-- The two forms of an lvalue that is numbered next. -/
def nextLvals (s : Session) (low high : Lval) : Forms (Tracked Lval) :=
  ⟨⟨s.nextLval, low⟩, ⟨s.nextLval + 1, high⟩⟩

/-- Lifting a value makes edits, numbers the two forms, and attaches the facts to both. -/
theorem liftValue_eq (low high : Sym.Expr) (reaching : List Flow) (site : Site) (s : Session) :
    ∃ s' l h, Relation.ReflTransGen Session.Edit s s' ∧
      liftValue low high reaching site s =
        (nextExprs s' l h,
          { s' with nextExpr := s'.nextExpr + 2 }.recordAll
            [.mapExpr (nextExprs s' l h).low (nextExprs s' l h).high (some site.address),
              .addReachingDefs (nextExprs s' l h).low reaching,
              .addReachingDefs (nextExprs s' l h).high reaching]) :=
  ⟨(liftExpr high site (lowerExpr low site s).2).2, (lowerExpr low site s).1,
    (liftExpr high site (lowerExpr low site s).2).1,
    ((lowerExpr_steps low).edits site s).trans ((liftExpr_steps high).edits site _), rfl⟩

theorem liftValue_advances (low high : Sym.Expr) (reaching : List Flow) :
    Advances (liftValue low high reaching) := by
  intro site s
  obtain ⟨s', l, h, hedits, hrun⟩ := liftValue_eq low high reaching site s
  have hnext : s.nextExpr = s'.nextExpr := (Session.edits_frame hedits).2.1.symm
  have hlow : s.nextExpr ≤ s'.nextExpr ∧ s'.nextExpr < s'.nextExpr + 2 := by omega
  have hhigh : s.nextExpr ≤ s'.nextExpr + 1 ∧ s'.nextExpr + 1 < s'.nextExpr + 2 := by omega
  rw [hrun]
  refine (Session.edits_advance hedits).trans
    (.head (.number s' 2 0 0) (Session.recordAll_advances _ rfl ?_))
  simp only [List.forall_mem_cons]
  exact ⟨.nothing rfl,
    .reachingDefs reaching hlow, .reachingDefs reaching hhigh, nofun⟩

theorem liftTarget_advances (v : Sym.Variable) (t : Option Ty) (hint : Option Sym.Expr) :
    Advances (liftTarget v t hint) := by
  refine (lowerLval_steps v).edits.advances.bind fun l =>
    (liftDefinition_edits v t hint).advances.bind fun h => ?_
  intro site s
  let forms := nextLvals s l h
  let numbered : Session := { s with nextLval := s.nextLval + 2 }
  let linked := numbered.record (.mapLval forms.low forms.high (some site.address))
  let taken : Session := { linked with
    pending.defUses := linked.pending.defUses.drop 1
    pending.defUsesHigh := linked.pending.defUsesHigh.drop 1 }
  let use := linked.pending.defUses.head?.bind Fact.value?
  let useHigh := linked.pending.defUsesHigh.head?.bind Fact.value?
  have htaken : Relation.ReflTransGen (Session.Advance s.nextNode) s taken :=
    .head (.number s 0 2 0) (.head (.record numbered _
      (.nothing rfl)) (.single (.handOut linked _)))
  have hnext : taken.nextNode = numbered.nextNode := Session.record_nextNode numbered _
  have hlow : s.nextLval ≤ s.nextLval ∧ s.nextLval < s.nextLval + 2 := by omega
  have hhigh : s.nextLval ≤ s.nextLval + 1 ∧ s.nextLval + 1 < s.nextLval + 2 := by omega
  have hfacts : ∀ call ∈ [Recording.addDefUse forms.low use, .addDefUse forms.high use,
      .addDefUseHigh forms.high useHigh], call.AttachesWithin s.nextNode numbered.nextNode := by
    simp only [List.forall_mem_cons]
    exact ⟨.defUse use hlow, .defUse use hhigh,
      .defUseHigh useHigh hhigh, nofun⟩
  have hrecorded := htaken.trans (Session.recordAll_advances _ hnext hfacts)
  cases h with
  | mem _ _ =>
    exact hrecorded.tail (.record _ (.addStore forms.high)
      (.nothing rfl))
  | var _ _ => exact hrecorded

theorem liftCondition_advances (low high : Sym.Expr) : Advances (liftCondition low high) := by
  refine (lowerExpr_steps low).edits.advances.bind fun l => ?_
  refine (liftExpr_steps high).edits.advances.bind fun h => ?_
  intro site s
  let forms := nextExprs s l h
  let numbered : Session := { s with nextExpr := s.nextExpr + 2 }
  let linked := numbered.record (.mapExpr forms.low forms.high (some site.address))
  let taken : Session := { linked with pending.flagReachingDefs := [] }
  let reaching := linked.pending.flagReachingDefs.filterMap Fact.value?
  have htaken : Relation.ReflTransGen (Session.Advance s.nextNode) s taken :=
    .head (.number s 2 0 0) (.head (.record numbered _
      (.nothing rfl)) (.single (.handOut linked _)))
  have hnext : taken.nextNode = numbered.nextNode := Session.record_nextNode numbered _
  have hlow : s.nextExpr ≤ s.nextExpr ∧ s.nextExpr < s.nextExpr + 2 := by omega
  have hhigh : s.nextExpr ≤ s.nextExpr + 1 ∧ s.nextExpr + 1 < s.nextExpr + 2 := by omega
  refine htaken.trans (Session.recordAll_advances
    [.addFlagReachingDefs forms.low reaching, .addFlagReachingDefs forms.high reaching,
      .addConditionAddresses forms.low [site.address],
      .addConditionAddresses forms.high [site.address]] hnext ?_)
  simp only [List.forall_mem_cons]
  exact ⟨.flagReachingDefs reaching hlow,
    .flagReachingDefs reaching hhigh,
    .nothing rfl,
    .nothing rfl, nofun⟩

/-! ### Instructions -/

/-- The calls that link two forms and record where they come from. -/
def instrCalls (i : Forms Instr) (address : UInt64) : List Recording :=
  [.mapInstr i.low i.high (some address), .addAddresses i.low [address],
    .addAddresses i.high [address]]

theorem linkInstrs_eq (actions : Forms Action) (site : Site) (s : Session) :
    linkInstrs actions site s =
      (nextForms s actions,
        { s with nextInstr := s.nextInstr + 2 }.recordAll
          (instrCalls (nextForms s actions) site.address)) :=
  rfl

theorem recordSpan_eq (i : Forms Instr) (size : Nat) (site : Site) (s : Session) :
    (recordSpan i size site s).2 =
      s.recordAll [.addSpan i.low ⟨site.address, size⟩, .addSpan i.high ⟨site.address, size⟩] :=
  rfl

theorem linkInstrs_advances (actions : Forms Action) : Advances (linkInstrs actions) := by
  intro site s
  rw [linkInstrs_eq]
  refine .head (.number s 0 0 2) (Session.recordAll_advances _ rfl ?_)
  simp only [instrCalls, List.forall_mem_cons]
  exact ⟨.nothing rfl, .nothing rfl, .nothing rfl, nofun⟩

theorem recordSpan_advances (i : Forms Instr) (size : Nat) : Advances (recordSpan i size) := by
  intro site s
  rw [recordSpan_eq]
  refine Session.recordAll_advances _ rfl ?_
  simp only [List.forall_mem_cons]
  exact ⟨.nothing rfl, .nothing rfl, nofun⟩

theorem liftAssign_advances (target : Sym.Variable) (low high : Sym.Expr)
    (hint : Option Sym.Expr) : Advances (liftAssign target low high hint) := by
  refine .bind (.handOut fun s => ⟨_, rfl⟩) fun reaching => ?_
  refine (liftValue_advances low high reaching).bind fun value => ?_
  refine globals_edits.advances.bind fun g => (liftTarget_advances target _ hint).bind fun place => ?_
  exact (recordConstant_edits target high).advances.bind fun _ => linkInstrs_advances _

theorem liftArguments_advances (args : List Sym.Expr) : Advances (liftArguments args) := by
  induction args with
  | nil => exact .pure _
  | cons x rest ih =>
    refine .bind (.handOut fun s => ⟨_, rfl⟩) fun reaching => ?_
    exact (liftValue_advances x x _).bind fun e => ih.map _

theorem liftCallTarget_advances (target : Option Sym.Variable) :
    Advances (target.mapM fun v => liftTarget v none none) := by
  cases target with
  | none => exact .pure _
  | some v => exact (liftTarget_advances v none none).map some

theorem liftCall_advances (target : Option Sym.Variable) (name : Option String)
    (address : Option Sym.Expr) (args : List Sym.Expr) :
    Advances (liftCall target name address args) := by
  refine (liftCallee_steps name address).edits.advances.bind fun callee => ?_
  refine (liftArguments_advances args).bind fun args => ?_
  exact (liftCallTarget_advances target).bind fun place => linkInstrs_advances _

theorem liftReturn_advances (value : Option (Forms Sym.Expr)) : Advances (liftReturn value) := by
  cases value with
  | none => exact .pure _
  | some x =>
    refine .map (.map (.bind (.handOut fun s => ⟨_, rfl⟩) fun reaching => ?_) some) _
    exact liftValue_advances x.low x.high reaching

theorem liftBranch_advances (target : UInt64) (cond : Option Sym.Expr) :
    Advances (liftBranch target cond) := by
  cases cond with
  | none => exact .pure _
  | some x => exact (liftCondition_advances x x).map _

theorem liftNop_advances (text : String) : Advances (liftNop text) :=
  linkInstrs_advances _

theorem sized_advances (size : Nat) {x : LiftM (Forms Instr)} (hx : Advances x) :
    Advances (sized size x) :=
  hx.bind fun i => (recordSpan_advances i size).map _

/-! ### Operations -/

/-- An action that may stop, and makes such changes only until it does. -/
def AdvancesOrStops (x : LiftE α) : Prop := Advances x.run

namespace AdvancesOrStops

theorem lift {x : LiftM α} (hx : Advances x) : AdvancesOrStops (liftM x : LiftE α) := hx

theorem throw (e : Error) : AdvancesOrStops (throw e : LiftE α) := fun _ _ => .refl

theorem bind {x : LiftM α} {f : α → LiftE β} (hx : Advances x) (hf : ∀ a, AdvancesOrStops (f a)) :
    AdvancesOrStops (liftM x >>= f) :=
  Advances.bind hx hf

theorem map {x : LiftM α} (hx : Advances x) (f : α → β) :
    AdvancesOrStops (do return f (← x) : LiftE β) :=
  .bind hx fun _ _ _ => .refl

end AdvancesOrStops

/-- An instruction without error values is lifted by such changes, and so is one that is part of
another instruction. -/
theorem liftOperation_advances (o : Operation) {r : Record} {d : Decoded} (size : Nat)
    (h : r.isSubsumed = true ∨ d.isOk = true) : AdvancesOrStops (liftOperation o r d size) := by
  refine .bind read_edits.advances fun site => ?_
  split
  · exact .lift (sized_advances size (liftNop_advances _))
  next hsubsumed =>
  split
  next herror => simp [h.resolve_left hsubsumed] at herror
  refine .bind (note_edits _).advances fun _ => ?_
  split
  · unfold liftAssignment
    split
    · split
      · exact .lift (sized_advances size (liftAssign_advances _ _ _ _))
      · exact .throw _
    · exact .throw _
  · exact .lift (sized_advances size (liftCall_advances _ _ _ _))
  · exact .map (liftReturn_advances _) _
  · split
    · rw [branchCondition?_bind]
      exact .map (liftBranch_advances _ _) _
    · exact .throw _
  · exact .lift (sized_advances size (liftNop_advances _))

end LiftM

end FactLift
