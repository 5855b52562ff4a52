import FactLift.Proofs.Lift.Advances
import FactLift.Proofs.Lift.OpenPlaces

/-! What the low-level form of a target leaves unreported.

A low-level form reports its placeholders, except at gaps (`lowerLval_alerts`). There it relies on the
high-level form of the same variable, which has a placeholder at a gap of both forms. So a placeholder
in the target of an assignment does not go unreported (`liftAssign_reports_gaps`), unless the
high-level form finds its way where the low-level one does not, or goes through a hint.

`Alerts before x after` follows an action with whether something has been reported. -/

namespace FactLift

open C

/-- The reasons of the placeholders in the place that an instruction writes to. -/
def C.Action.targetReasons : Action → List String
  | .assign place _ | .call (some place) _ _ => place.tree.reasons
  | .call none _ _ | .asm .. | .nop _ => []

namespace LiftM

variable {α β : Type}

/-! ### Something is reported -/

/-- If `after` holds of the result, then `before` did or the action reports something for the
instruction at hand. -/
def Alerts (before : Prop) (x : LiftM α) (after : α → Prop) : Prop :=
  ∀ site s, ∃ ds, (x site s).2.diagnostics = s.diagnostics ++ ds ∧
    (after (x site s).1 → before ∨ ∃ d ∈ ds, d.site = some site.address)

namespace Alerts

variable {before : Prop} {x : LiftM α} {middle : α → Prop}

theorem pure {a : α} {after : α → Prop} (h : after a → before) :
    Alerts before (pure a : LiftM α) after :=
  fun _ s => ⟨[], (List.append_nil s.diagnostics).symm, fun ha => .inl (h ha)⟩

theorem bind {f : α → LiftM β} {after : β → Prop} (hx : Alerts before x middle)
    (hf : ∀ a, Alerts (middle a) (f a) after) : Alerts before (x >>= f) after := by
  intro site s
  obtain ⟨ds, hds, hmiddle⟩ := hx site s
  obtain ⟨ds', hds', hafter⟩ := hf (x site s).1 site (x site s).2
  refine ⟨ds ++ ds', ?_, fun hb => ?_⟩
  · rw [← List.append_assoc, ← hds]
    exact hds'
  · rcases hafter hb with ha | ⟨d, hd, hsite⟩
    · exact (hmiddle ha).imp_right fun ⟨d, hd, hsite⟩ =>
        ⟨d, List.mem_append_left ds' hd, hsite⟩
    · exact .inr ⟨d, List.mem_append_right ds hd, hsite⟩

theorem imp {after : α → Prop} (hx : Alerts before x middle) (h : ∀ a, after a → middle a) :
    Alerts before x after :=
  fun site s => (hx site s).imp fun _ ⟨hds, hmiddle⟩ => ⟨hds, fun ha => hmiddle (h _ ha)⟩

/-- What was reported before does not matter. -/
theorem frame (hx : Alerts False x middle) (earlier : Prop) :
    Alerts earlier x fun a => earlier ∨ middle a := by
  intro site s
  obtain ⟨ds, hds, hmiddle⟩ := hx site s
  refine ⟨ds, hds, fun ha => ha.imp_right fun hm => ?_⟩
  exact (hmiddle hm).resolve_left not_false

/-- The result is wrapped into something else. -/
theorem map {f : α → β} {after : β → Prop} (hx : Alerts before x middle)
    (h : ∀ a, after (f a) → middle a) : Alerts before (do return f (← x)) after :=
  hx.bind fun a => .pure (h a)

end Alerts

/-- Placeholders that are reported in order are reported. -/
theorem Reports.alerts {reasons : List String} {x : LiftM α} {after : α → List String}
    (hx : Reports reasons x after) : Alerts (reasons ≠ []) x (after · ≠ []) := by
  intro site s
  obtain ⟨new, ⟨ds, hds, rfl, hsite⟩, hafter⟩ := hx site s
  refine ⟨ds, hds, fun ha => ?_⟩
  change after (x site s).1 ≠ [] at ha
  rw [← hafter] at ha
  cases ds with
  | nil => exact .inl fun h => ha (by rw [h, List.map_nil, List.append_nil])
  | cons d ds => exact .inr ⟨d, List.mem_cons_self, hsite d List.mem_cons_self⟩

theorem Reports.alerts_nil {x : LiftM α} {after : α → List String}
    (hx : Reports [] x after) : Alerts False x (after · ≠ []) := by
  simpa using hx.alerts

/-- An action that changes the session as the lift of an instruction does takes no report back. -/
theorem Advances.alerts {x : LiftM α} (hx : Advances x) (before : Prop) :
    Alerts before x fun _ => before :=
  fun site s => (Session.advances_diagnostics (hx site s)).imp fun _ hds => ⟨hds, .inl⟩

theorem Steps.alerts {x : LiftM α} (hx : Steps x) (before : Prop) :
    Alerts before x fun _ => before :=
  hx.edits.advances.alerts before

/-- A step after which nothing more was to be reported. -/
theorem Steps.next {x : LiftM α} {f : α → LiftM β} {before : Prop} {after : β → Prop}
    (hx : Steps x) (hf : ∀ a, Alerts before (f a) after) : Alerts before (x >>= f) after :=
  (hx.alerts before).bind hf

/-! ### Low-level forms -/

theorem combined_alerts (op : Sym.Op) (args : List Expr) :
    Alerts (args.flatMap Expr.reasons ≠ []) (combined op args) (·.reasons ≠ []) := by
  unfold combined
  split
  next e he => exact .pure (by rw [reasons_combine? he]; exact id)
  next =>
    exact ((unresolvedExpr_reports _ _).alerts_nil.frame _).imp fun _ => .inr

theorem lowerAddress_reports (name : String) (p : Expr) (distance : Option Int64) :
    Reports p.reasons (lowerAddress name p distance) Expr.reasons := by
  unfold lowerAddress
  split
  · exact .pure rfl
  · exact .pure (by simp only [Expr.reasons, List.append_nil])
  · exact ((unresolvedExpr_reports _ _).frame p.reasons).map fun u => by rw [Expr.reasons]

/-- Without a constant distance there is always a report. -/
theorem lowerAddress_none_alerts (name : String) (p : Expr) (before : Prop) :
    Alerts before (lowerAddress name p none) fun _ => True := by
  have hu : Alerts before (unresolvedExpr .unsupportedOffset s!"non-constant offset of {name}")
      fun _ => True := by
    intro site s
    exact ⟨[_], rfl, fun _ => .inr ⟨_, List.mem_singleton_self _, rfl⟩⟩
  exact hu.map fun _ => id

/-- A variable that a step makes up is a place without placeholders. -/
theorem Steps.var_alerts {x : LiftM Symbol} (hx : Steps x) :
    Alerts False (do return .var (← x) .none) (Lval.reasons · ≠ []) :=
  hx.next fun w => .pure (by simp [Lval.reasons, Offset.reasons])

theorem Steps.symbol_alerts {x : LiftM Symbol} (hx : Steps x) :
    Alerts False (do return .ofSymbol (← x)) (Expr.reasons · ≠ []) :=
  hx.next fun w => .pure (by simp)

mutual

theorem lowerExpr_alerts : ∀ x : Sym.Expr, x.gaps = [] →
    Alerts False (lowerExpr x) (·.reasons ≠ [])
  | .const c, _ => by
    rw [lowerExpr]
    exact .pure (by simp [Expr.reasons])
  | .var v, h => by
    rw [lowerExpr]
    exact lowerVariable_alerts v (by rwa [Sym.Expr.gaps] at h)
  | .apply op args, h => by
    rw [lowerExpr_apply]
    rw [Sym.Expr.gaps] at h
    split
    next => exact (liftSettled_reports _).alerts_nil
    next hop =>
      rw [if_neg hop] at h
      exact (lowerExprs_alerts args h).bind fun es => combined_alerts op es
termination_by x => sizeOf x

theorem lowerExprs_alerts : ∀ xs : List Sym.Expr, Sym.Expr.gapsOf xs = [] →
    Alerts False (lowerExprs xs) (·.flatMap Expr.reasons ≠ [])
  | [], _ => by
    rw [lowerExprs]
    exact .pure (by simp)
  | x :: rest, h => by
    rw [lowerExprs]
    rw [Sym.Expr.gapsOf, List.append_eq_nil_iff] at h
    refine (lowerExpr_alerts x h.1).bind fun e => ?_
    refine ((lowerExprs_alerts rest h.2).frame (e.reasons ≠ [])).map fun es => ?_
    simp only [List.flatMap_cons, ne_eq, List.append_eq_nil_iff, not_and_or, imp_self]
termination_by x => sizeOf x

theorem lowerVariable_alerts : ∀ v : Sym.Variable, v.gaps = [] →
    Alerts False (lowerVariable v) (·.reasons ≠ [])
  | ⟨name, number, .fixed value⟩, h => by
    have hvalue : value.gaps = [] := by
      rw [Sym.Variable.gaps] at h
      split at h
      · exact List.map_eq_nil_iff.mp h
      · exact h
    rw [lowerVariable]
    split
    next action haction => exact lowerFixed?_alerts value hvalue action haction
    next hnone => rcases value with _ | ⟨_, _, _⟩ | _ | _ <;> simp [lowerFixed?] at hnone
  | ⟨name, number, .absent⟩, h | ⟨name, number, .register _⟩, h
  | ⟨name, number, .flag _⟩, h | ⟨name, number, .memory ..⟩, h => by
    rw [lowerVariable]
    simp only [lowerFixed?]
    refine (lowerPlace_alerts name number _ (by simpa [Sym.Variable.gaps] using h)).map fun l => ?_
    rw [Expr.reasons]
    exact id
termination_by x => sizeOf x

theorem lowerFixed?_alerts : ∀ value : Sym.FixedValue, value.gaps = [] →
    ∀ action, lowerFixed? (.fixed value) = some action → Alerts False action (·.reasons ≠ [])
  | .initialRegister .., _, _, haction | .returnValue .., _, _, haction => by
    rw [lowerFixed?] at haction
    rw [← Option.some.inj haction]
    exact (Steps.named ..).symbol_alerts
  | .initialMemory ⟨name, number, meaning⟩, h, _, haction => by
    rw [lowerFixed?] at haction
    rw [← Option.some.inj haction]
    rw [Sym.FixedValue.gaps] at h
    refine (lowerPlace_alerts name number meaning h).map fun l => ?_
    rw [Expr.reasons]
    exact id
  | .symbolic _ x, h, _, haction => by
    rw [lowerFixed?] at haction
    rw [← Option.some.inj haction]
    rw [Sym.FixedValue.gaps] at h
    exact lowerExpr_alerts x h
termination_by x => sizeOf x

theorem lowerPlace_alerts (name : String) (number : Int64) :
    ∀ meaning : Sym.Meaning, meaning.placeGaps (number == -1) = [] →
      Alerts False (lowerPlace name number meaning) (·.reasons ≠ [])
  | meaning, h => by
    unfold lowerPlace
    split
    · exact (Steps.temporary name).var_alerts
    next hnumber =>
    split
    · exact (Steps.register _).var_alerts
    · exact (Steps.flag _).var_alerts
    next v _ o =>
      have hmem (p : Expr) : (Lval.mem p .none).reasons ≠ [] → p.reasons ≠ [] := by
        simp [Lval.reasons, Offset.reasons]
      simp only [Sym.Meaning.placeGaps, hnumber, Sym.Base.gaps] at h
      cases hdistance : o.constant? with
      | some c =>
        have hv : v.gaps = [] := by simpa [hdistance] using h
        refine (lowerVariable_alerts v hv).bind fun p => ?_
        exact (lowerAddress_reports name p (some c)).alerts.map hmem
      | none =>
        exact (lowerVariable_steps v).next fun p =>
          (lowerAddress_none_alerts name p False).map fun _ _ => trivial
    next o =>
      split
      · exact (Steps.lowerGlobal _).var_alerts
      next hnone =>
        simp [Sym.Meaning.placeGaps, hnumber, Sym.Base.gaps, Sym.Base.placesLow, hnone] at h
    next o =>
      split
      · exact (Steps.slot _).var_alerts
      next hnone =>
        simp [Sym.Meaning.placeGaps, hnumber, Sym.Base.gaps, Sym.Base.placesLow, hnone] at h
    next base _ o hpointer hglobals hframe =>
      cases base with
      | pointer v => exact (hpointer v rfl).elim
      | globals => exact (hglobals rfl).elim
      | localFrame => exact (hframe rfl).elim
      | allocatedFrame | realignedFrame | unknown =>
        simp [Sym.Meaning.placeGaps, hnumber, Sym.Base.gaps, Sym.Base.placesLow] at h
    · exact (placed_reports (.error _)).alerts_nil
    · exact (placed_reports (.error _)).alerts_nil
termination_by x => sizeOf x

end

theorem lowerLval_alerts {v : Sym.Variable} (h : v.placeGaps = []) :
    Alerts False (lowerLval v) (·.reasons ≠ []) :=
  lowerPlace_alerts v.name v.number v.meaning h

/-! ### Targets -/

theorem liftDefinition_alerts {v : Sym.Variable} {hint : Option Sym.Expr}
    (h : .shared ∈ v.placeGaps) (hhint : hint = none ∨ v.placesHigh = true) (t : Option Ty) :
    Alerts False (liftDefinition v t hint) fun _ => True := by
  have hregister : v.register? = none := by
    rw [Sym.Variable.placeGaps, Sym.Meaning.mem_placeGaps] at h
    obtain ⟨-, base, size, o, hmeaning, -⟩ := h
    rw [Sym.Variable.register?, hmeaning]
  unfold liftDefinition
  rw [hregister]
  refine Steps.read.next fun _ => ?_
  intro site s
  obtain ⟨ds, hds, halerts⟩ := (liftLval_reports v hint).alerts_nil site s
  exact ⟨ds, hds, fun _ => halerts (liftLval_returns h hhint site s)⟩

theorem linkLvals_alerts (low high : Lval) (P : Lval → Prop) :
    Alerts (P low) (linkLvals low high) fun forms => P forms.low.tree := by
  intro site s
  let numbered : Session := { s with nextLval := s.nextLval + 2 }
  let call : Recording :=
    .mapLval ⟨s.nextLval, low⟩ ⟨s.nextLval + 1, high⟩ (some site.address)
  have hrun : (linkLvals low high site s).2 = numbered.record call := rfl
  exact ⟨(numbered.provenance.record call).2.toList, by rw [hrun, Session.record_eq], .inl⟩

/-- A placeholder in the low-level form of a target does not go unreported, if the target has no gaps
or one that both forms leave open and that no hint stands in for. -/
theorem liftTarget_alerts {v : Sym.Variable} {hint : Option Sym.Expr}
    (h : v.placeGaps = [] ∨ .shared ∈ v.placeGaps ∧ (hint = none ∨ v.placesHigh = true))
    (t : Option Ty) : Alerts False (liftTarget v t hint) (·.low.tree.reasons ≠ []) := by
  have hboth : ∃ told : Lval → Prop, Alerts False (lowerLval v) told ∧
      ∀ low, Alerts (told low) (liftDefinition v t hint) fun _ => low.reasons ≠ [] := by
    rcases h with h | ⟨h, hhint⟩
    · exact ⟨_, lowerLval_alerts h, fun low => (liftDefinition_edits v t hint).advances.alerts _⟩
    · exact ⟨_, (lowerLval_steps v).alerts False,
        fun low => (liftDefinition_alerts h hhint t).imp fun _ _ => trivial⟩
  obtain ⟨told, hlow, hhigh⟩ := hboth
  refine hlow.bind fun low => (hhigh low).bind fun high => ?_
  refine (linkLvals_alerts low high (·.reasons ≠ [])).bind fun forms => ?_
  -- Whatever facts are handed out and recorded, nothing is reported about it.
  intro site s
  cases high <;> exact ⟨[], (List.append_nil _).symm, .inl⟩

theorem liftAssign_alerts {target : Sym.Variable} {hint : Option Sym.Expr}
    (h : target.placeGaps = [] ∨
      .shared ∈ target.placeGaps ∧ (hint = none ∨ target.placesHigh = true))
    (low high : Sym.Expr) :
    Alerts False (liftAssign target low high hint) (·.low.tree.targetReasons ≠ []) := by
  have htake : Advances takeReachingDefs := .handOut fun s => ⟨_, rfl⟩
  refine (htake.alerts False).bind fun reaching => ?_
  refine ((liftValue_advances low high reaching).alerts False).bind fun value => ?_
  refine Steps.globals.next fun g => (liftTarget_alerts h _).bind fun place => ?_
  refine ((recordConstant_edits target high).advances.alerts _).bind fun _ => ?_
  exact fun site s => (linkInstrs_advances _).alerts (place.low.tree.reasons ≠ []) site s

/-- **No placeholder in the target of an assignment goes unreported,** unless the low-level form alone
has one: whatever is assigned and whatever the session, a placeholder in the target of the low-level
instruction comes with a diagnostic for the instruction's address. The target has no gaps, or one that
both forms leave open and that no hint stands in for. -/
theorem liftAssign_reports_gaps (target : Sym.Variable) (low high : Sym.Expr)
    (hint : Option Sym.Expr)
    (h : target.placeGaps = [] ∨
      .shared ∈ target.placeGaps ∧ (hint = none ∨ target.placesHigh = true))
    (cfg : Config) (a : UInt64) (d : Decoded) (s : Session) :
    let out := (liftAssign target low high hint).runAt cfg a d s
    ∃ ds, out.2.diagnostics = s.diagnostics ++ ds ∧
      (out.1.low.tree.targetReasons ≠ [] → ∃ d ∈ ds, d.site = some a) := by
  obtain ⟨ds, hds, hreported⟩ := liftAssign_alerts h low high
    ⟨cfg, a, d.reachingDefs.filterMap Fact.value?⟩ { s with pending := .ofDecoded d }
  exact ⟨ds, hds, fun hopen => (hreported hopen).resolve_left not_false⟩

/-- The integer at a distance from a pointer that is kept in an allocated frame. -/
def pastAllocated (bytes : Int64) : Sym.Variable :=
  ⟨"v", 1, .memory (.pointer ⟨"p", 2, .memory .allocatedFrame 4 .none⟩) 4 (.const bytes .none)⟩

/-- Neither form knows where the pointer is kept, so there is a report even with a hint. -/
theorem liftAssign_reports_gaps_of_allocated :
    let one : Sym.Expr := .const (.int 1 .w32)
    let out := (liftAssign (pastAllocated 8) one one (some one)).runAt {} 0x10 {} (.start {} "f")
    out.1.low.tree.targetReasons = ["location of p"] ∧
      ∃ d ∈ out.2.diagnostics, d.site = some 0x10 := by
  intro one out
  have hgaps : .shared ∈ (pastAllocated 8).placeGaps := by decide
  have hreasons : out.1.low.tree.targetReasons = ["location of p"] := by decide
  obtain ⟨ds, hds, hreported⟩ :=
    liftAssign_reports_gaps (pastAllocated 8) one one (some one)
      (.inr ⟨hgaps, .inr (by decide)⟩) {} 0x10 {} (.start {} "f")
  obtain ⟨d, hd, hsite⟩ := hreported (hreasons ▸ List.cons_ne_nil _ _)
  exact ⟨hreasons, d, hds ▸ hd, hsite⟩

/-- The integer at an index into what is at `0x1000`, where a register holds the index. -/
def atRegister (r : String) : Sym.Variable :=
  ⟨"v", 1, .memory .globals 4 (.const 0x1000 (.indexVar ⟨r, 2, .register r⟩ 4 .none))⟩

/-- The high-level form goes to the variable at that address and indexes it, so the placeholder in the
low-level form goes unreported. -/
theorem liftAssign_hides_gap :
    let one : Sym.Expr := .const (.int 1 .w32)
    let out := (liftAssign (atRegister "R1") one one none).runAt {} 0x10 {} (.start {} "f")
    out.1.low.tree.targetReasons = ["location of v"] ∧ out.1.high.tree.targetReasons = [] ∧
      out.2.diagnostics = [] := by
  decide +kernel

end LiftM

end FactLift
