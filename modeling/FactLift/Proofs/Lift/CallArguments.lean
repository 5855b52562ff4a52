import FactLift.Proofs.Lift.Advances

/-! The facts that the arguments of a call get.

A session that was built by lifting and recording, in whatever order and however often, has dataflow
facts only about nodes that were numbered (`Session.Built`). So what an argument of the next call has
is what that call attaches to it, which is the reaching definition in its place, if there is one
(`liftCall_arguments`): the record's definitions are handed out one for each argument, and one that
is missing counts. -/

namespace FactLift

open C

/-! ### Sessions -/

/-- The sessions that lifting gets to. It begins with any symbols. Instructions, or parts of them, are
lifted and nodes are linked, changes that record facts about numbered nodes only; symbols are made;
anything may be reported; and other lifts take further numbers from the same workspace. -/
inductive Session.Built : Session → Prop
  | start (w : Workspace) (function : String) (locals : Locals) :
    Built { Session.start w function with locals }
  | advance {s s' : Session} (h : s.Built) (hs : s.Advance (fun _ => 0) s') : Built s'
  | report {s : Session} (h : s.Built) (d : Diagnostic) : Built (s.report d)
  | elsewhere {s : Session} (h : s.Built) (w : Workspace) (hexpr : s.nextExpr ≤ w.nextExpr)
    (hlval : s.nextLval ≤ w.nextLval) : Built { s with toWorkspace := w }

namespace Session.Built

variable {s s' : Session}

/-- Whatever an action of a lift does to a session, the session stays one of these. -/
theorem advances {first : FlowKind → Nat} (h : s.Built)
    (hs : Relation.ReflTransGen (Session.Advance first) s s') : s'.Built := by
  induction hs with
  | refl => exact h
  | tail _ hstep ih => exact ih.advance (hstep.mono fun _ => Nat.zero_le _)

/-- Any part of an instruction may be lifted next, with the facts of a record. -/
theorem runAt {α : Type} {x : LiftM α} (h : s.Built) (hx : LiftM.Advances x) (cfg : Config)
    (address : UInt64) (d : Decoded) : (x.runAt cfg address d s).2.Built :=
  (h.advance (.handOut s (.ofDecoded d))).advances (hx _ _)

/-- Nothing is known about a node that was not numbered. -/
theorem facts?_eq_none (h : s.Built) {kind : FlowKind} {node : Nat} (hnode : s.nextNode kind ≤ node) :
    s.provenance.facts? kind node = none := by
  induction h with
  | start => exact Provenance.facts?_empty kind node
  | advance _ hs ih =>
    rw [hs.facts? (.inr hnode)]
    exact ih (Nat.le_trans (hs.nextNode_le kind) hnode)
  | report _ _ ih => exact ih hnode
  | elsewhere _ w hexpr hlval ih =>
    refine ih (Nat.le_trans ?_ hnode)
    cases kind <;> assumption

/-- Whatever has facts was numbered. -/
theorem lt_of_facts? (h : s.Built) {kind : FlowKind} {node : Nat}
    (hsome : (s.provenance.facts? kind node).isSome) : node < s.nextNode kind := by
  by_contra hge
  rw [h.facts?_eq_none (Nat.le_of_not_lt hge)] at hsome
  cases hsome

end Session.Built

/-! ### Arguments -/

/-- The node was numbered on the way from one session to another, and there it has this reaching
definition and no other. -/
structure Takes (e : Tracked Expr) (reaching : Option Flow) (s s' : Session) : Prop where
  le : s.nextExpr ≤ e.id
  lt : e.id < s'.nextExpr
  facts : s'.provenance.facts? .reachingDef e.id = reaching.map fun f => [f]

namespace Takes

variable {e : Tracked Expr} {reaching : Option Flow} {s s₀ s' s'' : Session}

/-- What is lifted afterwards does not matter. -/
theorem later (h : Takes e reaching s s')
    (hs : Relation.ReflTransGen (Session.Advance s'.nextNode) s' s'') : Takes e reaching s s'' where
  le := h.le
  lt := Nat.lt_of_lt_of_le h.lt (Session.nextNode_le_of_advances hs .reachingDef)
  facts := (Session.facts?_of_advances hs (.inl h.lt)).trans h.facts

theorem earlier (h : Takes e reaching s s') (hs : s₀.nextExpr ≤ s.nextExpr) :
    Takes e reaching s₀ s' :=
  ⟨Nat.le_trans hs h.le, h.lt, h.facts⟩

end Takes

namespace LiftM

/-- Both forms of a value have the facts that were given for it. -/
theorem liftValue_takes (low high : Sym.Expr) (reaching : Option Flow) (site : Site) (s : Session)
    (hfresh : ∀ node, s.nextExpr ≤ node → s.provenance.facts? .reachingDef node = none) :
    Takes (liftValue low high reaching.toList site s).1.low reaching s
        (liftValue low high reaching.toList site s).2 ∧
      Takes (liftValue low high reaching.toList site s).1.high reaching s
        (liftValue low high reaching.toList site s).2 ∧
      (liftValue low high reaching.toList site s).2.pending = s.pending := by
  obtain ⟨s', l, h, hedits, hrun⟩ := liftValue_eq low high reaching.toList site s
  obtain ⟨hprovenance, hnext, -, hpending⟩ := Session.edits_frame hedits
  let numbered : Session := { s' with nextExpr := s'.nextExpr + 2 }
  let forms := nextExprs s' l h
  let calls : List Recording := [.mapExpr forms.low forms.high (some site.address),
    .addReachingDefs forms.low reaching.toList, .addReachingDefs forms.high reaching.toList]
  obtain ⟨hbound, hkept⟩ := Session.recordAll_frame numbered calls
  have hlast : (numbered.recordAll calls).nextExpr = s'.nextExpr + 2 := congrFun hbound .reachingDef
  have hle : s.nextExpr ≤ s'.nextExpr := Nat.le_of_eq hnext.symm
  have hfacts (node : Nat) (hnode : s.nextExpr ≤ node)
      (hforms : node = forms.low.id ∨ node = forms.high.id) :
      (numbered.recordAll calls).provenance.facts? .reachingDef node =
        reaching.map fun f => [f] := by
    have hnone : numbered.provenance.facts? .reachingDef node = none := by
      show s'.provenance.facts? .reachingDef node = none
      rw [hprovenance, hfresh node hnode]
    have hmap : (Recording.mapExpr forms.low forms.high (some site.address)).attached?
        .reachingDef node = none := rfl
    have hne : forms.low.id ≠ forms.high.id := Nat.ne_of_lt (Nat.lt_succ_self _)
    simp only [calls, Session.recordAll, List.foldl, Session.record_facts?,
      Recording.attached?_addReachingDefs, hmap, hnone, Option.or_none]
    rcases hforms with rfl | rfl
    · rw [if_pos rfl, if_neg hne, Option.none_or]
    · rw [if_pos rfl, if_neg hne.symm, Option.or_none]
  rw [hrun]
  refine ⟨⟨hle, ?_, ?_⟩, ⟨Nat.le_succ_of_le hle, ?_, ?_⟩, hkept.trans hpending⟩
  · exact Nat.lt_of_lt_of_eq (by simp [nextExprs]) hlast.symm
  · exact hfacts _ hle (.inl rfl)
  · exact Nat.lt_of_lt_of_eq (by simp [nextExprs]) hlast.symm
  · exact hfacts _ (Nat.le_succ_of_le hle) (.inr rfl)

/-- **Positions.** The argument at a position has the reaching definition at the position, if there
is one. -/
theorem liftArguments_takes (args : List Sym.Expr) (site : Site) (s : Session)
    (hfresh : ∀ node, s.nextExpr ≤ node → s.provenance.facts? .reachingDef node = none) :
    (liftArguments args site s).1.length = args.length ∧
      ∀ (i : Nat) (forms : Forms (Tracked Expr)),
        (liftArguments args site s).1[i]? = some forms →
        ∀ e ∈ [forms.low, forms.high],
          Takes e (s.pending.reachingDefs[i]?.bind Fact.value?) s (liftArguments args site s).2 := by
  induction args generalizing s with
  | nil => exact ⟨rfl, fun i forms hforms => nomatch hforms⟩
  | cons x rest ih =>
    let taken : Session := { s with pending.reachingDefs := s.pending.reachingDefs.drop 1 }
    let reaching := s.pending.reachingDefs.head?.bind Fact.value?
    let first := liftValue x x reaching.toList site taken
    let others := liftArguments rest site first.2
    have hrun : liftArguments (x :: rest) site s = (first.1 :: others.1, others.2) := rfl
    have hadvance := liftValue_advances x x reaching.toList site taken
    have hrest := liftArguments_advances rest site first.2
    have hnext : s.nextExpr ≤ first.2.nextExpr :=
      Session.nextNode_le_of_advances hadvance .reachingDef
    obtain ⟨hlow, hhigh, hpending⟩ := liftValue_takes x x reaching site taken hfresh
    obtain ⟨hlength, hothers⟩ := ih first.2 fun node hnode => by
      rw [Session.facts?_of_advances hadvance (.inr hnode)]
      exact hfresh node (Nat.le_trans hnext hnode)
    rw [hrun]
    refine ⟨congrArg (· + 1) hlength, fun i forms hforms e he => ?_⟩
    cases i with
    | zero =>
      obtain rfl : first.1 = forms := Option.some.inj hforms
      rw [← List.head?_eq_getElem?]
      simp only [List.mem_cons, List.not_mem_nil, or_false] at he
      rcases he with rfl | rfl
      · exact (hlow.later hrest).earlier (Nat.le_refl _)
      · exact (hhigh.later hrest).earlier (Nat.le_refl _)
    | succ i =>
      have hdrop : first.2.pending.reachingDefs[i]? = s.pending.reachingDefs[i + 1]? := by
        rw [hpending, Nat.add_comm]
        exact List.getElem?_drop
      rw [← hdrop]
      exact (hothers i forms hforms e he).earlier hnext

/-! ### Calls -/

/-- **One reaching definition for each argument.** In any session, the argument of a call at a
position has the reaching definition that the record has at that position, in both forms, and none
if it is missing there or the record has no more of them. Facts of nodes from before the call stay
as they are. -/
theorem liftCall_arguments {s : Session} (hs : s.Built) (cfg : Config) (address : UInt64)
    (d : Decoded) (target : Option Sym.Variable) (name : Option String) (callee : Option Sym.Expr)
    (args : List Sym.Expr) :
    let run := (liftCall target name callee args).runAt cfg address d s
    ∃ lowTarget lowCallee lows highTarget highCallee highs,
      run.1.low.tree = .call lowTarget lowCallee lows ∧
      run.1.high.tree = .call highTarget highCallee highs ∧
      lows.length = args.length ∧ highs.length = args.length ∧
      (∀ (i : Nat) (e : Tracked Expr), lows[i]? = some e ∨ highs[i]? = some e →
        s.nextExpr ≤ e.id ∧ run.2.provenance.facts? .reachingDef e.id =
          (d.reachingDefs[i]?.bind Fact.value?).map fun f => [f]) ∧
      ∀ kind node, (s.provenance.facts? kind node).isSome ∨ node < s.nextNode kind →
        run.2.provenance.facts? kind node = s.provenance.facts? kind node := by
  intro run
  let site : Site := ⟨cfg, address, d.reachingDefs.filterMap Fact.value?⟩
  let start : Session := { s with pending := .ofDecoded d }
  let called := liftCallee name callee site start
  let passed := liftArguments args site called.2
  let placed := (target.mapM fun v => liftTarget v none none : LiftM _) site passed.2
  let actions : Forms Action :=
    ⟨.call (placed.1.map (·.low)) called.1.low (passed.1.map (·.low)),
      .call (placed.1.map (·.high)) called.1.high (passed.1.map (·.high))⟩
  have hrun : run = linkInstrs actions site placed.2 := rfl
  obtain ⟨hprovenance, hnext, -, hpending⟩ :=
    Session.edits_frame ((liftCallee_steps name callee).edits site start)
  obtain ⟨hlength, htakes⟩ := liftArguments_takes args site called.2 fun node hnode => by
    rw [hprovenance]
    exact hs.facts?_eq_none (Nat.le_trans (Nat.le_of_eq hnext.symm) hnode)
  have hplaced := liftCallTarget_advances target site passed.2
  have hlinked : Relation.ReflTransGen (Session.Advance passed.2.nextNode) passed.2 run.2 :=
    hplaced.trans (Session.advances_mono (linkInstrs_advances actions site placed.2)
      (Session.nextNode_le_of_advances hplaced))
  refine ⟨_, _, passed.1.map (·.low), _, _, passed.1.map (·.high), rfl, rfl, ?_, ?_, ?_, ?_⟩
  · rw [List.length_map, hlength]
  · rw [List.length_map, hlength]
  · intro i e he
    obtain ⟨forms, hforms, he⟩ : ∃ forms, passed.1[i]? = some forms ∧ e ∈ [forms.low, forms.high] := by
      simp only [List.getElem?_map, Option.map_eq_some_iff] at he
      rcases he with ⟨forms, hforms, rfl⟩ | ⟨forms, hforms, rfl⟩
      · exact ⟨forms, hforms, by simp⟩
      · exact ⟨forms, hforms, by simp⟩
    have harg := ((htakes i forms hforms e he).later hlinked).earlier (Nat.le_of_eq hnext.symm)
    rw [hpending] at harg
    exact ⟨harg.le, harg.facts⟩
  · intro kind node hnode
    have hold : node < s.nextNode kind := hnode.elim hs.lt_of_facts? id
    exact Session.facts?_of_advances (liftCall_advances target name callee args site start) (.inl hold)

def reachingDef (register location : String) : Flow :=
  ⟨.reachingDef, ⟨register, 1, .register register⟩, [location]⟩

/-- The facts of a call: the second of its reaching definitions is missing. -/
def gappedFacts : Decoded where
  reachingDefs := [.present (reachingDef "R0" "0x5f0"), .missing, .present (reachingDef "R2" "0x5f8")]

def threeRegisters : List Sym.Expr :=
  ["R0", "R1", "R2"].map fun r => .var ⟨r, 1, .register r⟩

/-- A function in which such a call was lifted. -/
def afterCall : Session :=
  ((liftCall none (some "memcpy") none threeRegisters).runAt {} 0x600 gappedFacts
    (Session.start {} "copy")).2

/-- When it is called once more, the argument in the middle again has no reaching definition, and the
last one has its own. -/
theorem liftCall_arguments_of_gap :
    afterCall.Built ∧
      let run :=
        (liftCall none (some "memcpy") none threeRegisters).runAt {} 0x610 gappedFacts afterCall
      ∃ target callee lows, run.1.low.tree = .call target callee lows ∧ lows.length = 3 ∧
        (∀ e, lows[1]? = some e → run.2.provenance.facts? .reachingDef e.id = none) ∧
        ∀ e, lows[2]? = some e →
          run.2.provenance.facts? .reachingDef e.id = some [reachingDef "R2" "0x5f8"] := by
  have hs : afterCall.Built := Session.Built.runAt
    (.start {} "copy" { function := "copy" }) (liftCall_advances _ _ _ _) {} 0x600 gappedFacts
  obtain ⟨target, callee, lows, _, _, highs, hlow, -, hlength, -, hfacts, -⟩ :=
    liftCall_arguments hs {} 0x610 gappedFacts none (some "memcpy") none threeRegisters
  exact ⟨hs, target, callee, lows, hlow, hlength.trans rfl,
    fun e he => (hfacts 1 e (.inl he)).2.trans rfl, fun e he => (hfacts 2 e (.inl he)).2.trans rfl⟩

end LiftM

end FactLift
