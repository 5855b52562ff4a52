import FactLift.Proofs.Lift.Tracks

/-! What an operation lifts to.

An operation becomes an instruction, a return, or a jump to the address it leads to (`Lifted.Fits`).
An instruction is numbered, linked and recorded with its address and its size, after everything else
about it is done (`Links`); a statement leaves the tracked instructions as they are. -/

namespace FactLift

open C

def jumpTo (target : UInt64) : Stmt :=
  .ofBody (.goto (addressLabel target))

/-- A jump to the statement at an address, under a condition. -/
def jumpToIf (target : UInt64) (cond : Tracked Expr) : Stmt :=
  .ofBody (.branch cond (jumpTo target) (.ofBody (.block [])) (some target))

namespace Lifted

/-- What an operation can lift to. -/
inductive Fits (o : Operation) : Lifted → Prop
  | instr (i : Forms Instr) : Fits o (.instr i)
  | return (value : Option (Forms (Tracked Expr))) :
      Fits o (.stmt ⟨.ofBody (.return (value.map (·.low))), .ofBody (.return (value.map (·.high)))⟩)
  | jump {target : UInt64} (h : o.branchTarget? = some target) :
      Fits o (.stmt ⟨jumpTo target, jumpTo target⟩)
  | jumpIf {target : UInt64} (h : o.branchTarget? = some target) (cond : Forms (Tracked Expr)) :
      Fits o (.stmt (cond.map (jumpToIf target)))

/-- The instruction that something lifted is, if it is one, with where it comes from. -/
def traced (address : UInt64) (size : Nat) : Lifted → List Traced
  | .instr i => [⟨address, size, i⟩]
  | .stmt _ => []

end Lifted

namespace LiftM

variable {α β : Type}

/-! ### Instructions -/

/-- An action that ends with an instruction being numbered and linked. -/
def Links (x : LiftM (Forms Instr)) : Prop :=
  ∀ site s entries, s.Tracks entries →
    ∃ actions s', s'.Tracks entries ∧ x site s = linkInstrs actions site s'

theorem linkInstrs_links (actions : Forms Action) : Links (linkInstrs actions) :=
  fun _ s _ h => ⟨actions, s, h, rfl⟩

theorem Links.bind {x : LiftM α} {f : α → LiftM (Forms Instr)} (hx : Keeps x)
    (hf : ∀ a, Links (f a)) : Links (x >>= f) :=
  fun site s entries h => hf (x site s).1 site _ entries (hx site s entries h)

theorem liftAssign_links (target : Sym.Variable) (low high : Sym.Expr) (hint : Option Sym.Expr) :
    Links (liftAssign target low high hint) := by
  refine .bind (Keeps.take fun s => ⟨_, rfl⟩) fun reaching => ?_
  refine .bind (liftValue_keeps low high reaching) fun value => ?_
  refine .bind globals_edits.keeps fun g => .bind (liftTarget_keeps target _ hint) fun place => ?_
  exact .bind (recordConstant_edits target high).keeps fun _ => linkInstrs_links _

theorem liftCall_links (target : Option Sym.Variable) (name : Option String)
    (address : Option Sym.Expr) (args : List Sym.Expr) :
    Links (liftCall target name address args) := by
  refine .bind (liftCallee_steps name address).edits.keeps fun callee => ?_
  refine .bind (liftArguments_keeps args) fun args => .bind ?_ fun place => linkInstrs_links _
  cases target with
  | none => exact .pure _
  | some v => exact (liftTarget_keeps v none none).map some

/-- The two forms of an instruction that is numbered next. -/
def nextForms (s : Session) (actions : Forms Action) : Forms Instr :=
  ⟨⟨s.nextInstr, actions.low⟩, ⟨s.nextInstr + 1, actions.high⟩⟩

theorem linkInstrs_run (actions : Forms Action) (site : Site) (s : Session)
    (hfree : s.provenance.instrs.FreeFrom s.nextInstr) :
    linkInstrs actions site s =
      (nextForms s actions,
        { s with
          nextInstr := s.nextInstr + 2
          provenance := ((s.provenance.mapInstr (nextForms s actions).low
            (nextForms s actions).high (some site.address)).1.addAddresses
              (nextForms s actions).low [site.address]).addAddresses
                (nextForms s actions).high [site.address] }) := by
  let i := nextForms s actions
  let f (p : Provenance) := p.mapInstr i.low i.high (some site.address)
  have hquiet : (f s.provenance).2 = none :=
    (hfree.register .instruction i.high.id (some site.address)).1
  have hmapped := recordMapping_run (f := f) site { s with nextInstr := s.nextInstr + 2 } hquiet
  let finish (linked : Session) : Session :=
    { linked with
      provenance :=
        (linked.provenance.addAddresses i.low [site.address]).addAddresses i.high [site.address] }
  show (i, finish (recordMapping f site { s with nextInstr := s.nextInstr + 2 }).2) = _
  rw [hmapped]

theorem sized_linkInstrs_run (size : Nat) (actions : Forms Action) (site : Site) (s : Session)
    (h : s.provenance.instrs.FreeFrom s.nextInstr) :
    sized size (linkInstrs actions) site s =
      (.instr (nextForms s actions),
        { s with
          nextInstr := s.nextInstr + 2
          provenance := s.provenance.recordInstr (nextForms s actions) site.address size }) := by
  show (sized size (fun _ _ => linkInstrs actions site s)) site s = _
  rw [linkInstrs_run actions site s h]
  rfl

/-- An instruction that was linked and is given its size is one more entry. -/
theorem sized_adds {x : LiftM (Forms Instr)} (hx : Links x) (size : Nat) (site : Site)
    {s : Session} {entries : List Traced} (h : s.Tracks entries) :
    ∃ i, (sized size x site s).1 = .instr i ∧
      (sized size x site s).2.Tracks (entries ++ [⟨site.address, size, i⟩]) := by
  obtain ⟨actions, s', hs', hrun⟩ := hx site s entries h
  have hsized : sized size x site s = sized size (linkInstrs actions) site s' := by
    show (sized size (fun _ _ => x site s)) site s = _
    rw [hrun]
    rfl
  rw [hsized, sized_linkInstrs_run size actions site s' hs'.records.unmapped]
  exact ⟨nextForms s' actions, rfl, hs'.records.recordInstr site.address size rfl rfl, hs'.exprs,
    hs'.lvals, hs'.clean⟩

/-! ### Operations -/

/-- If the action gives a result, it is one that the operation can lift to, and it is tracked. -/
def LiftsTo (o : Operation) (size : Nat) (x : LiftE Lifted) : Prop :=
  ∀ site s l, (x.run site s).1 = .ok l →
    l.Fits o ∧
      ∀ entries, s.Tracks entries →
        (x.run site s).2.Tracks (entries ++ l.traced site.address size)

namespace LiftsTo

variable {o : Operation} {size : Nat}

theorem throw (e : Error) : LiftsTo o size (throw e) :=
  fun _ _ _ h => nomatch h

theorem bind {x : LiftM α} {f : α → LiftE Lifted} (hx : Keeps x)
    (hf : ∀ a, LiftsTo o size (f a)) : LiftsTo o size (liftM x >>= f) := by
  intro site s l h
  obtain ⟨hfits, htracks⟩ := hf (x site s).1 site (x site s).2 l h
  exact ⟨hfits, fun entries hs => htracks entries (hx site s entries hs)⟩

theorem sized {x : LiftM (Forms Instr)} (hx : Links x) :
    LiftsTo o size (liftM (LiftM.sized size x)) := by
  intro site s l hl
  have hl : (LiftM.sized size x site s).1 = l := Except.ok.inj hl
  subst hl
  refine ⟨.instr _, fun entries hs => ?_⟩
  obtain ⟨i, hi, htracks⟩ := sized_adds hx size site hs
  rw [hi]
  exact htracks

theorem stmt {x : LiftM (Forms Stmt)} (hx : Keeps x)
    (h : ∀ site s, (Lifted.stmt (x site s).1).Fits o) :
    LiftsTo o size (do return .stmt (← x)) := by
  intro site s l hl
  cases hl
  refine ⟨h site s, fun entries hs => ?_⟩
  rw [Lifted.traced, List.append_nil]
  exact hx site s entries hs

end LiftsTo

/-- **The step.** What an instruction lifts to is an instruction, which is tracked, or a return or a
jump, which is not. -/
theorem liftOperation_lifts (o : Operation) (r : Record) (d : Decoded) (size : Nat) :
    LiftsTo o size (liftOperation o r d size) := by
  refine .bind read_edits.keeps fun site => ?_
  split
  · exact .sized (linkInstrs_links _)
  split
  · exact .bind (report_keeps _ (by decide)) fun _ => .sized (linkInstrs_links _)
  refine .bind (note_edits _).keeps fun _ => ?_
  split
  · -- an assignment needs a target and a value
    unfold liftAssignment
    split
    · split
      · exact .sized (liftAssign_links _ _ _ _)
      · exact .throw _
    · exact .throw _
  · exact .sized (liftCall_links _ _ _ _)
  · refine .stmt (liftReturn_keeps _) fun site s => ?_
    exact .return _
  · split
    next target htarget =>
      rw [branchCondition?_bind]
      refine .stmt (liftBranch_keeps _ _) fun site s => ?_
      cases d.exprs.head? with
      | none => exact .jump htarget
      | some x => exact .jumpIf htarget _
    · exact .throw _
  · exact .sized (linkInstrs_links _)

end LiftM

end FactLift
