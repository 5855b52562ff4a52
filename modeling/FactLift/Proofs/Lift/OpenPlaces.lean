import FactLift.Proofs.Lift.Gaps
import FactLift.Proofs.Lift.Reports

/-! Placeholders in high-level forms.

A location that both forms leave open is a placeholder in the high-level form, however deep it stands
in what is lifted: behind pointers, in the values of variables and in their operands. So the
high-level form of a target with such a gap has a placeholder (`liftLval_returns`), and with it a
report.

`Returns x Q` says what an action gives in every session. -/

namespace FactLift

open C

namespace LiftM

variable {α β : Type}

/-- Whatever the session, the action gives a result like this. -/
def Returns (x : LiftM α) (Q : α → Prop) : Prop :=
  ∀ site s, Q (x site s).1

namespace Returns

variable {x : LiftM α} {P : α → Prop}

theorem pure {a : α} (h : P a) : Returns (pure a : LiftM α) P := fun _ _ => h

theorem bind {f : α → LiftM β} {Q : β → Prop} (hx : Returns x P)
    (hf : ∀ a, P a → Returns (f a) Q) : Returns (x >>= f) Q :=
  fun site s => hf (x site s).1 (hx site s) site (x site s).2

/-- A step whose result does not matter. -/
theorem next {f : α → LiftM β} {Q : β → Prop} (hf : ∀ a, Returns (f a) Q) : Returns (x >>= f) Q :=
  fun site s => hf (x site s).1 site (x site s).2

/-- The result is wrapped into something else. -/
theorem map {f : α → β} {Q : β → Prop} (hx : Returns x P) (h : ∀ a, P a → Q (f a)) :
    Returns (do return f (← x)) Q :=
  hx.bind fun a ha => .pure (h a ha)

end Returns

/-- What has been reported is in the result. -/
theorem Reports.returns {reasons : List String} {x : LiftM α} {after : α → List String}
    (hx : Reports reasons x after) (h : reasons ≠ []) : Returns x (after · ≠ []) := by
  intro site s
  obtain ⟨new, -, hafter⟩ := hx site s
  show after (x site s).1 ≠ []
  rw [← hafter]
  simp [h]

theorem unresolvedExpr_returns (kind : DiagnosticKind) (reason : String) :
    Returns (unresolvedExpr kind reason) (·.reasons ≠ []) :=
  .next fun _ => .pure (by simp [Expr.reasons])

theorem unresolvedOffset_returns (reason : String) :
    Returns (unresolvedOffset reason) (·.reasons ≠ []) :=
  .next fun _ => .pure (by simp [Offset.reasons])

theorem reasons_combine? {op : Sym.Op} {args : List Expr} {e : Expr}
    (h : combine? op args = some e) : e.reasons = args.flatMap Expr.reasons := by
  unfold combine? at h
  split at h
  · obtain ⟨o, -, rfl⟩ := Option.map_eq_some_iff.mp h
    simp [Expr.reasons]
  · obtain ⟨o, -, rfl⟩ := Option.map_eq_some_iff.mp h
    simp [Expr.reasons]
  · cases h

theorem combined_returns (op : Sym.Op) {args : List Expr} (h : args.flatMap Expr.reasons ≠ []) :
    Returns (combined op args) (·.reasons ≠ []) := by
  unfold combined
  split
  next e he => exact .pure (by rwa [reasons_combine? he])
  next => exact unresolvedExpr_returns _ _

theorem moved_returns (op : BinOp) {p : Expr} (c : Int64) (h : p.reasons ≠ []) :
    Returns (moved op p c) (·.reasons ≠ []) := by
  intro site s
  rw [moved_eq, reasons_moveBy]
  exact h

/-! ### Operators -/

/-- A placeholder in the form of an operand that is no constant is kept, if the whole is no address
in the frame. -/
theorem liftSettled_apply_returns {op : Sym.Op} {args : List Sym.Expr} {P : Sym.Expr → Prop}
    (hstack : (Sym.Expr.apply op args).stackOffset? = none) (hint : ∀ a, P a → a.int? = none)
    (hargs : ∀ a ∈ args, Returns (liftSettled a) fun e => P a → e.reasons ≠ []) :
    Returns (liftSettled (.apply op args)) fun e => (∃ a ∈ args, P a) → e.reasons ≠ [] := by
  have h := liftSettled_apply op args
  generalize liftSettled (.apply op args) = x at h ⊢
  have hone {a : Sym.Expr} {e : Expr} (he : P a → e.reasons ≠ []) (h : ∃ x ∈ [a], P x) :
      e.reasons ≠ [] := he (by simpa using h)
  have htwo {a b : Sym.Expr} {e f : Expr} (he : P a → e.reasons ≠ []) (hf : P b → f.reasons ≠ [])
      (h : ∃ x ∈ [a, b], P x) : e.reasons ++ f.reasons ≠ [] := by
    rw [ne_eq, List.append_eq_nil_iff, not_and_or]
    have h : P a ∨ P b := by simpa using h
    exact h.imp he hf
  cases h with
  | slot hslot =>
    rw [hstack] at hslot
    cases hslot
  | masked =>
    exact (hargs _ (by simp)).map fun e he h => by simpa [Expr.reasons] using hone he h
  | unary =>
    exact (hargs _ (by simp)).bind fun e he site s h =>
      combined_returns op (by simpa using hone he h) site s
  | @moved op a b o c ho hc =>
    refine (hargs a (by simp)).bind fun p hp site s h => ?_
    have hb : ¬ P b := fun h => by simp [hint b h] at hc
    exact moved_returns o c (hp (by simpa [hb] using h)) site s
  | shifted =>
    exact (hargs _ (by simp)).bind fun e he => (hargs _ (by simp)).bind fun f hf => .next fun _ =>
      .pure fun h => by simpa [shiftRight, Expr.reasons] using htwo he hf h
  | @byte a b n bits hn hbits =>
    refine (hargs b (by simp)).map fun e he h => ?_
    have ha : ¬ P a := fun h => by simp [hint a h] at hn
    simpa [byteAt, Expr.reasons] using he (by simpa [ha] using h)
  | binary =>
    exact (hargs _ (by simp)).bind fun e he => (hargs _ (by simp)).bind fun f hf site s h =>
      combined_returns op (by simpa using htwo he hf h) site s
  | unresolved reason => exact fun site s _ => unresolvedExpr_returns _ reason site s

/-- The form of an expression has a placeholder where that of one of its variables has, as no such
variable is the stack pointer at entry. -/
theorem liftSettled_returns {u : Sym.Variable} (hu : Returns (liftVariable u) (·.reasons ≠ []))
    (hbase : u.isStackBase = false) (x : Sym.Expr) :
    Returns (liftSettled x) fun e => u ∈ x.vars → e.reasons ≠ [] := by
  induction x using Sym.Expr.operandInduction with
  | const c => exact fun _ _ h => by simp [Sym.Expr.vars] at h
  | var v =>
    intro site s h
    rw [Sym.Expr.vars, List.mem_singleton] at h
    subst h
    rw [liftSettled]
    exact hu site s
  | apply op args ih =>
    intro site s h
    have hstack : (Sym.Expr.apply op args).stackOffset? = none := by
      by_contra hsome
      obtain ⟨offset, hoffset⟩ := Option.ne_none_iff_exists'.mp hsome
      simp [Sym.isStackBase_of_stackOffset? hoffset h] at hbase
    have hint (a : Sym.Expr) (ha : u ∈ a.vars) : a.int? = none := by
      cases a with
      | const c => simp [Sym.Expr.vars] at ha
      | var | apply => rfl
    rw [Sym.Expr.vars, Sym.varsOf_eq_flatMap, List.mem_flatMap] at h
    exact liftSettled_apply_returns hstack hint ih site s h

/-! ### Places -/

theorem along_returns (host : Ty) (bytes : Int64) {rest : Ty → LiftM Offset}
    (hrest : ∀ t, Returns (rest t) (·.reasons ≠ [])) :
    Returns (along host bytes rest) (·.reasons ≠ []) := by
  refine .next fun path => ?_
  split
  · exact (hrest _).map fun o ho => by rwa [Path.reasons_wrap]
  · exact (unresolvedOffset_returns _).map fun o ho => by rwa [Path.reasons_wrap]

/-- A chain that ends where nothing is known has a placeholder there, or before. -/
theorem liftOffset_returns : ∀ (o : Sym.Offset) (host : Option Ty), o.endsUnknown = true →
    Returns (liftOffset o host) (·.reasons ≠ [])
  | .none, _, h => by simp [Sym.Offset.endsUnknown] at h
  | .const v sub, some host, h => by
    rw [liftOffset]
    exact .next fun g => along_returns _ v fun t => liftOffset_returns sub (some t) h
  | .const v sub, none, h => by
    rw [liftOffset]
    split
    · exact liftOffset_returns sub none h
    · exact unresolvedOffset_returns _
  | .field name key sub, _, h => by
    rw [liftOffset]
    exact .next fun g => (liftOffset_returns sub _ h).map fun o ho => by rwa [Offset.reasons]
  | .index i sub, host, h => by
    rw [liftOffset]
    exact .next fun e => .next fun g => (liftOffset_returns sub _ h).map fun o ho => by
      simp [Offset.reasons, ho]
  | .indexVar v elementSize sub, host, h => by
    rw [liftOffset]
    refine .next fun g => .next fun size => ?_
    split
    · exact unresolvedOffset_returns _
    · exact .next fun e => (liftOffset_returns sub _ h).map fun o ho => by
        simp [Offset.reasons, ho]
  | .unknown, _, _ => by
    rw [liftOffset]
    exact unresolvedOffset_returns _
termination_by o => sizeOf o

/-- A place with a placeholder or, unless it is sure to be found, none. -/
def OpenPlace (found : Bool) : Except String Lval → Prop
  | .ok l => l.reasons ≠ []
  | .error _ => found = false

theorem placed_returns {found : Bool} {place : Except String Lval} (h : OpenPlace found place) :
    Returns (placed place) (·.reasons ≠ []) := by
  cases place with
  | ok l => exact .pure h
  | error reason =>
    exact (unresolvedExpr_returns _ reason).map fun e he => by simp [Lval.reasons, he]

/-- At a gap of both forms, the high-level form has no place or a placeholder in it. -/
theorem liftPlace_gap_returns {base : Sym.Base} {o : Sym.Offset} (h : base.gap? o = some .shared)
    (name : String) (size : Nat) :
    Returns (liftPlace name (.memory base size o)) (OpenPlace (base.placesHigh o)) := by
  obtain ⟨hlow, hhigh⟩ := Sym.Base.gap?_eq_shared.mp h
  have hvar {s : Symbol} {x : LiftM Offset} (hx : Returns x (·.reasons ≠ [])) (found : Bool) :
      Returns (do return .ok (.var s (← x))) (OpenPlace found) :=
    hx.map fun o ho => by rwa [OpenPlace, Lval.reasons]
  cases base with
  | pointer v => simp [Sym.Base.placesLow] at hlow
  | allocatedFrame | realignedFrame | unknown =>
    simp only [liftPlace]
    exact .pure rfl
  | globals =>
    cases o with
    | none => simp [Sym.Base.placesLow, Sym.Offset.constant?] at hlow
    | const v sub =>
      have hsub : sub.endsUnknown = true := by
        simpa [Sym.Base.placesHigh, Sym.Offset.endsUnknown] using hhigh
      rw [liftPlace]
      refine .next fun found => ?_
      obtain ⟨s, distance⟩ := found
      dsimp only
      split
      · exact hvar (along_returns _ _ fun t => liftOffset_returns sub (some t) hsub) _
      · split
        · exact hvar (liftOffset_returns sub none hsub) _
        · exact hvar (unresolvedOffset_returns _) _
    | field | index | indexVar | unknown =>
      simp only [liftPlace]
      exact .pure rfl
  | localFrame =>
    cases o with
    | none => simp [Sym.Base.placesLow, Sym.Offset.constant?] at hlow
    | const v sub =>
      have hsub : sub.endsUnknown = true := by
        simpa [Sym.Base.placesHigh, Sym.Offset.endsUnknown] using hhigh
      rw [liftPlace]
      exact .next fun s => hvar (liftOffset_returns sub _ hsub) _
    | field | index | indexVar | unknown =>
      simp only [liftPlace]
      exact .pure rfl

theorem stackFormal?_returns {v : Sym.Variable} (h : v.stackOffset? = none) :
    Returns (stackFormal? v) (· = none) := by
  unfold stackFormal?
  rw [h]
  exact .pure rfl

mutual

/-- Where both forms of a use of a variable leave a location open, the high-level one has a
placeholder. -/
theorem liftVariable_returns : ∀ v : Sym.Variable, .shared ∈ v.gaps →
    Returns (liftVariable v.settle) (·.reasons ≠ [])
  | ⟨name, number, .fixed value⟩, h => by
    rw [Sym.Variable.gaps] at h
    split at h
    next => simp at h
    next hnumber =>
    rw [Sym.Variable.settle, Sym.Meaning.settle, liftVariable, if_neg hnumber]
    exact liftFixed_returns name value h
  | ⟨name, number, .memory base size o⟩, h => by
    simp only [Sym.Variable.gaps, Sym.Meaning.mem_placeGaps] at h
    obtain ⟨hnumber, _, _, _, ⟨⟩, h⟩ := h
    rw [Sym.Variable.settle, Sym.Meaning.settle, liftVariable, hnumber,
      if_neg Bool.false_ne_true]
    refine (liftPlace_returns name size o base h).bind fun place hplace => ?_
    exact (placed_returns hplace).map fun l hl => by rwa [Expr.reasons]
  | ⟨_, _, .absent⟩, h | ⟨_, _, .register _⟩, h | ⟨_, _, .flag _⟩, h => by
    simp [Sym.Variable.gaps, Sym.Meaning.placeGaps] at h
termination_by v => sizeOf v

theorem liftFixed_returns (name : String) : ∀ value : Sym.FixedValue, .shared ∈ value.gaps →
    Returns (liftFixed name value.settle) (·.reasons ≠ [])
  | .initialMemory ⟨n, number, meaning⟩, h => by
    rw [Sym.FixedValue.gaps, Sym.Meaning.mem_placeGaps] at h
    obtain ⟨hnumber, base, size, o, rfl, h⟩ := h
    have hformal := Sym.stackOffset?_of_gap n number size h
    rw [← Sym.Variable.stackOffset?_settle] at hformal
    rw [Sym.FixedValue.settle, liftFixed]
    refine (stackFormal?_returns hformal).bind fun formal hnone => ?_
    subst hnone
    rw [Sym.Variable.settle, Sym.Meaning.settle, liftLvalue, hnumber, if_neg Bool.false_ne_true]
    refine (liftPlace_returns n size o base h).bind fun place hplace => ?_
    exact (placed_returns hplace).map fun l hl => by rwa [Expr.reasons]
  | .initialRegister .., h | .returnValue .., h => by simp [Sym.FixedValue.gaps] at h
  | .symbolic _ x, h => by
    rw [Sym.FixedValue.gaps] at h
    obtain ⟨u, hu, hbase, hreturns⟩ := exists_open_var x h
    rw [Sym.FixedValue.settle, liftFixed]
    have hmem : u.settle ∈ x.settle.simplify.vars := by
      rw [Sym.vars_simplify_settle]
      exact List.mem_map_of_mem hu
    rw [← Sym.Variable.isStackBase_settle] at hbase
    exact fun site s => liftSettled_returns hreturns hbase _ site s hmem
termination_by value => sizeOf value

theorem liftPlace_returns (name : String) (size : Nat) (o : Sym.Offset) :
    ∀ base : Sym.Base, .shared ∈ base.gaps o →
      Returns (liftPlace name (.memory base.settle size o.settle)) (OpenPlace (base.placesHigh o))
  | .pointer v, h => by
    rw [Sym.Base.gaps] at h
    split at h
    next =>
      rw [Sym.Base.settle, liftPlace]
      refine (liftVariable_returns v h).bind fun p hp => ?_
      exact ((liftDeref_reports p o.settle).returns hp).map fun l => id
    next => simp at h
  | .localFrame, h | .allocatedFrame, h | .realignedFrame, h | .globals, h | .unknown _, h => by
    simp only [Sym.Base.gaps, Option.mem_toList] at h
    rw [← Sym.Base.gap?_settle] at h
    rw [← Sym.Base.placesHigh_settle]
    exact liftPlace_gap_returns h name size
termination_by base => sizeOf base

theorem exists_open_var : ∀ x : Sym.Expr, .shared ∈ x.gaps →
    ∃ u ∈ x.vars, u.isStackBase = false ∧ Returns (liftVariable u.settle) (·.reasons ≠ [])
  | .const c, h => by simp [Sym.Expr.gaps] at h
  | .var v, h => by
    rw [Sym.Expr.gaps] at h
    exact ⟨v, by simp [Sym.Expr.vars], Sym.Variable.isStackBase_of_gap h, liftVariable_returns v h⟩
  | .apply op args, h => by
    rw [Sym.Expr.gaps] at h
    split at h
    next => simp at h
    next =>
      rw [Sym.Expr.vars]
      exact exists_open_varOf args h
termination_by x => sizeOf x

theorem exists_open_varOf : ∀ xs : List Sym.Expr, .shared ∈ Sym.Expr.gapsOf xs →
    ∃ u ∈ Sym.Expr.varsOf xs, u.isStackBase = false ∧
      Returns (liftVariable u.settle) (·.reasons ≠ [])
  | [], h => by simp [Sym.Expr.gapsOf] at h
  | x :: rest, h => by
    rw [Sym.Expr.gapsOf] at h
    rw [Sym.Expr.varsOf]
    rcases List.mem_append.mp h with h | h
    · obtain ⟨u, hu, hreturns⟩ := exists_open_var x h
      exact ⟨u, List.mem_append_left _ hu, hreturns⟩
    · obtain ⟨u, hu, hreturns⟩ := exists_open_varOf rest h
      exact ⟨u, List.mem_append_right _ hu, hreturns⟩
termination_by xs => sizeOf xs

end

/-- A gap of both forms leaves a placeholder in the high-level form of a target, if no hint takes the
place of a location that is not found. -/
theorem liftLval_returns {v : Sym.Variable} {hint : Option Sym.Expr} (h : .shared ∈ v.placeGaps)
    (hhint : hint = none ∨ v.placesHigh = true) :
    Returns (liftLval v hint) (·.reasons ≠ []) := by
  obtain ⟨name, number, meaning⟩ := v
  rw [Sym.Variable.placeGaps, Sym.Meaning.mem_placeGaps] at h
  obtain ⟨hnumber, base, size, o, rfl, h⟩ := h
  change (number == -1) = false at hnumber
  unfold liftLval
  rw [Sym.Variable.settle, Sym.Meaning.settle, liftLvalue, hnumber, if_neg Bool.false_ne_true]
  refine (liftPlace_returns name size o base h).bind fun place hplace => ?_
  split
  next reason address =>
    have hfound : base.placesHigh o = true := by
      simpa [Sym.Variable.placesHigh, Sym.Variable.memory?] using hhint
    rw [OpenPlace, hfound] at hplace
    contradiction
  next => exact placed_returns hplace

end LiftM

end FactLift
