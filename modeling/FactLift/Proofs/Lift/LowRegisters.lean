import FactLift.Proofs.C.Symbols
import FactLift.Proofs.Lift.RegisterForm
import FactLift.Proofs.Lift.RegisterUse

/-! The registers that the low-level form of an expression mentions.

Over registers and integers, low-level forms mention the registers of the expression as they are.
The exceptions are the four operators that C has no counterpart for: what stands below them is lifted
as in the high-level code, so there a register is read through the variable of its definition
(`lowerExpr_registers`).

`Mentions P before x after` follows an action with the variables that trees mention: if those in
`before` are as `P` says when the action starts, those in `after` of its result are when it ends. -/

namespace FactLift

open C

namespace Sym

/-- A plain integer. -/
def Constant.IsInt : Constant → Prop
  | .int _ _ => True
  | .address _ => False

mutual

/-- The variables below operators that C has no counterpart for. -/
def Expr.extracted : Expr → List Variable
  | .const _ | .var _ => []
  | .apply op args => if op.isExtraction then Expr.varsOf args else Expr.extractedOf args

/-- The variables below such operators in a list of expressions. -/
def Expr.extractedOf : List Expr → List Variable
  | [] => []
  | a :: rest => a.extracted ++ Expr.extractedOf rest

end

theorem extractedOf_eq_flatMap (xs : List Expr) :
    Expr.extractedOf xs = xs.flatMap Expr.extracted := by
  induction xs with
  | nil => rfl
  | cons a rest ih => rw [Expr.extractedOf, ih, List.flatMap_cons]

/-- An expression over registers and integers, with any operators. -/
def Expr.OverPlainRegisters (x : Expr) : Prop :=
  x.MadeOf Constant.IsInt Variable.IsRegister fun _ => True

end Sym

/-- A variable stands for one of some registers, or is what is read for one of others here. -/
def Site.ReadsFrom (vs us : List Sym.Variable) (site : Site) (l : Locals) (w : Symbol) : Prop :=
  (∃ v ∈ vs, ∃ r, v.register? = some r ∧ l.IsRegister r w) ∨
    ∃ v ∈ us, ∃ r, v.register? = some r ∧ site.reachingVariable? l r = some w

theorem Site.reachingVariable?_eq {site : Site} {l : Locals} {r : String} {w : Symbol}
    (h : site.reachingVariable? l r = some w) :
    ∃ f a, site.reaching.find? (fun f => f.var.register? == some r) = some f ∧ f.addresses = [a] ∧
      l.ssa? r a = some w := by
  unfold reachingVariable? at h
  obtain ⟨-, -, h⟩ := Option.bind_eq_some_iff.mp h
  obtain ⟨f, hf, h⟩ := Option.bind_eq_some_iff.mp h
  split at h
  next a ha => exact ⟨f, a, hf, ha, h⟩
  next => cases h

theorem Site.reachingVariable?_widens {l l' : Locals} (site : Site) (h : l.Widens l')
    (hl : l.WellNamed) (r : String) : site.reachingVariable? l' r = site.reachingVariable? l r := by
  have hssa : l'.ssa? r = l.ssa? r := funext fun a => h.ssa? hl r a
  unfold reachingVariable?
  rw [hssa]

theorem Site.ReadsFrom.widens {vs us : List Sym.Variable} {site : Site} {l l' : Locals} {w : Symbol}
    (h : site.ReadsFrom vs us l w) (hl : l.Sound) (hw : l.Widens l') :
    site.ReadsFrom vs us l' w := by
  rcases h with ⟨v, hv, r, hr, h⟩ | ⟨v, hv, r, hr, h⟩
  · exact .inl ⟨v, hv, r, hr, h.widens hl hw⟩
  · exact .inr ⟨v, hv, r, hr, (site.reachingVariable?_widens hw hl.toWellNamed r).trans h⟩

namespace LiftM

variable {α β : Type} {vs us : List Sym.Variable}

/-! ### The rules -/

/-- With `before` read from these registers at the start, `after` of the result is at the end. -/
structure Mentions (vs us : List Sym.Variable) (before : List Symbol) (x : LiftM α)
    (after : α → List Symbol) : Prop where
  steps : Steps x
  reads : ∀ (site : Site) (s : Session), s.locals.Sound →
    (∀ w ∈ before, site.ReadsFrom vs us s.locals w) →
    ∀ w ∈ after (x site s).1, site.ReadsFrom vs us (x site s).2.locals w

namespace Mentions

variable {before : List Symbol} {x : LiftM α} {middle : α → List Symbol}

theorem pure {a : α} {after : α → List Symbol} (h : after a ⊆ before) :
    Mentions vs us before (pure a : LiftM α) after where
  steps := .pure a
  reads _ _ _ hbefore w hw := hbefore w (h hw)

theorem bind {f : α → LiftM β} {after : β → List Symbol} (hx : Mentions vs us before x middle)
    (hf : ∀ a, Mentions vs us (middle a) (f a) after) : Mentions vs us before (x >>= f) after where
  steps := hx.steps.bind fun a => (hf a).steps
  reads site s hs hbefore :=
    (hf (x site s).1).reads site (x site s).2 ((hx.steps.widens site s).sound hs)
      (hx.reads site s hs hbefore)

/-- What was read before is still there. -/
theorem frame (hx : Mentions vs us [] x middle) (earlier : List Symbol) :
    Mentions vs us earlier x fun a => earlier ++ middle a where
  steps := hx.steps
  reads site s hs hearlier w hw := by
    rcases List.mem_append.mp hw with hw | hw
    · exact (hearlier w hw).widens hs (hx.steps.widens site s)
    · exact hx.reads site s hs (fun _ h => nomatch h) w hw

/-- A step after which nothing more is mentioned. -/
theorem next (hx : Steps x) {f : α → LiftM β} {after : β → List Symbol}
    (hf : ∀ a, Mentions vs us before (f a) after) : Mentions vs us before (x >>= f) after :=
  .bind ⟨hx, fun site s hs hbefore w hw => (hbefore w hw).widens hs (hx.widens site s)⟩ hf

end Mentions

/-! ### Registers and operators -/

theorem registerVariable_mentions {v : Sym.Variable} (hv : v ∈ vs) {r : String}
    (hr : v.register? = some r) :
    Mentions vs us [] (registerVariable r) fun w => [w] where
  steps := .register r
  reads site s _ _ w hw := by
    rw [List.mem_singleton.mp hw]
    exact .inl ⟨v, hv, r, hr, s.locals.isRegister_register r⟩

/-- A use of a register reads what reaches it, or the register itself. -/
theorem registerUse_mentions {v : Sym.Variable} (hv : v ∈ vs) (hu : v ∈ us) {r : String}
    (hr : v.register? = some r) :
    Mentions vs us [] (registerUse r) fun w => [w] where
  steps := registerUse_steps r
  reads site s hs hbefore w hw := by
    rcases registerUse_cases r site s with ⟨w', hw', hrun⟩ | ⟨-, hrun⟩
    · rw [hrun] at hw ⊢
      rw [List.mem_singleton.mp hw]
      exact .inr ⟨v, hu, r, hr, hw'⟩
    · rw [hrun] at hw ⊢
      exact (registerVariable_mentions hv hr).reads site s hs hbefore w hw

theorem unresolvedExpr_mentions {kind : DiagnosticKind} (reason : String) (h : kind.isPlaceholder) :
    Mentions vs us [] (unresolvedExpr kind reason) Expr.symbols :=
  .next (.report reason h) fun _ => .pure (by simp [Expr.symbols])

theorem combined_mentions (op : Sym.Op) (args : List Expr) :
    Mentions vs us (args.flatMap Expr.symbols) (combined op args) Expr.symbols := by
  unfold combined
  split
  next e he => exact .pure (by rw [symbols_combine? he]; exact List.Subset.refl _)
  next => exact .next (.report _ (by decide)) fun _ => .pure (by simp [Expr.symbols])

theorem moved_mentions (op : BinOp) (p : Expr) (c : Int64) :
    Mentions vs us p.symbols (moved op p c) Expr.symbols where
  steps := moved_steps op p c
  reads site s hs hbefore w hw := by
    rw [moved_eq, symbols_moveBy] at hw
    exact (hbefore w hw).widens hs ((moved_steps op p c).widens site s)

/-! ### High-level forms -/

/-- An operator mentions what its operands do. -/
theorem liftSettled_apply_mentions {op : Sym.Op} {args : List Sym.Expr}
    (hx : (Sym.Expr.apply op args).OverPlainRegisters)
    (hargs : ∀ a ∈ args, Mentions vs us [] (liftSettled a) Expr.symbols) :
    Mentions vs us [] (liftSettled (.apply op args)) Expr.symbols := by
  have h := liftSettled_apply op args
  generalize liftSettled (.apply op args) = x at h ⊢
  cases h with
  | slot hslot =>
    rw [stackOffset?_eq_none hx] at hslot
    cases hslot
  | masked => exact (hargs _ (by simp)).bind fun e => .pure (by simp [Expr.symbols])
  | unary => exact (hargs _ (by simp)).bind fun e => by simpa using combined_mentions op [e]
  | moved =>
    exact (hargs _ (by simp)).bind fun p => moved_mentions _ p _
  | shifted =>
    exact (hargs _ (by simp)).bind fun e => ((hargs _ (by simp)).frame e.symbols).bind fun s =>
      .next .globals fun _ => .pure (by simp [shiftRight, Expr.symbols])
  | byte => exact (hargs _ (by simp)).bind fun e => .pure (by simp [byteAt, Expr.symbols])
  | binary =>
    exact (hargs _ (by simp)).bind fun e => ((hargs _ (by simp)).frame e.symbols).bind fun f => by
      simpa using combined_mentions op [e, f]
  | unresolved reason => exact unresolvedExpr_mentions reason (by decide)

/-- A high-level form mentions registers, and what is read for them. -/
theorem liftSettled_mentions {x : Sym.Expr} (hx : x.OverPlainRegisters) (hvs : x.vars ⊆ vs)
    (hus : x.vars ⊆ us) : Mentions vs us [] (liftSettled x) Expr.symbols := by
  have hall := hx
  induction hx with
  | @const c hc =>
    rw [liftSettled]
    cases c with
    | int v w => cases w <;> exact .pure (by simp [Expr.symbols])
    | address a => exact hc.elim
  | var hv =>
    obtain ⟨name, number, r, hnumber, rfl⟩ := hv.eq
    simp only [Sym.Expr.vars, List.cons_subset, List.nil_subset, and_true] at hvs hus
    rw [liftSettled, liftVariable, if_neg (by simpa using hnumber)]
    exact (registerUse_mentions hvs hus rfl).bind fun w => .pure (by simp)
  | @apply op args _ hargs ih =>
    refine liftSettled_apply_mentions hall fun a ha => ?_
    have hsub : a.vars ⊆ (Sym.Expr.apply op args).vars := by
      rw [Sym.Expr.vars, Sym.varsOf_eq_flatMap]
      exact fun v hv => List.mem_flatMap.mpr ⟨a, ha, hv⟩
    exact ih a ha (List.Subset.trans hsub hvs) (List.Subset.trans hsub hus) (hargs a ha)

/-! ### Low-level forms -/

theorem lowerExprs_mentions {xs : List Sym.Expr}
    (h : ∀ a ∈ xs, Mentions vs us [] (lowerExpr a) Expr.symbols) :
    Mentions vs us [] (lowerExprs xs) (·.flatMap Expr.symbols) := by
  induction xs with
  | nil =>
    rw [lowerExprs]
    exact .pure (by simp)
  | cons a rest ih =>
    obtain ⟨ha, hrest⟩ := List.forall_mem_cons.mp h
    rw [lowerExprs]
    exact ha.bind fun e => ((ih hrest).frame e.symbols).bind fun es => .pure (by simp)

/-- A low-level form mentions registers, and what is read for those below an operator that C has no
counterpart for. -/
theorem lowerExpr_mentions {x : Sym.Expr} (hx : x.OverPlainRegisters) (hvs : x.vars ⊆ vs)
    (hus : x.extracted ⊆ us) : Mentions vs us [] (lowerExpr x) Expr.symbols := by
  have hall := hx
  induction hx with
  | const _ =>
    rw [lowerExpr]
    exact .pure (by simp [Expr.symbols])
  | var hv =>
    obtain ⟨name, number, r, hnumber, rfl⟩ := hv.eq
    simp only [Sym.Expr.vars, List.cons_subset, List.nil_subset, and_true] at hvs
    rw [lowerExpr, lowerVariable]
    simp only [lowerFixed?, lowerPlace]
    rw [if_neg (by simpa using hnumber)]
    have hplace : Mentions vs us []
        (do return .var (← registerVariable r) .none : LiftM Lval) Lval.symbols :=
      (registerVariable_mentions hvs rfl).bind fun w =>
        .pure (by simp [Lval.symbols, Offset.symbols])
    exact hplace.bind fun l => .pure (by simp [Expr.symbols])
  | @apply op args _ hargs ih =>
    rw [lowerExpr_apply]
    rw [Sym.Expr.extracted] at hus
    split at hus
    next hop =>
      rw [if_pos hop, Sym.settle_of_registers hall]
      exact liftSettled_mentions hall hvs (by rwa [Sym.Expr.vars])
    next hop =>
      rw [if_neg hop]
      rw [Sym.extractedOf_eq_flatMap] at hus
      rw [Sym.Expr.vars, Sym.varsOf_eq_flatMap] at hvs
      refine (lowerExprs_mentions fun a ha => ?_).bind fun es => combined_mentions op es
      exact ih a ha (fun v hv => hvs (List.mem_flatMap.mpr ⟨a, ha, hv⟩))
        (fun v hv => hus (List.mem_flatMap.mpr ⟨a, ha, hv⟩)) (hargs a ha)

/-- **Low-level forms mention registers as they are,** except below the operators that C has no
counterpart for. Over registers and integers, every variable of a low-level form stands for a register
of the expression and for no definition, or it is the variable of the definition that is read, in the
high-level code, for a register below such an operator. No register may be called like the variable of
a definition. -/
theorem lowerExpr_registers {x : Sym.Expr} (hx : x.OverPlainRegisters) {s : Session}
    (hs : s.locals.Sound)
    (hnames : ∀ v ∈ x.vars, ∀ r, v.register? = some r →
      ∀ r' a', (s.locals.ssa? r' a').isSome → r ≠ ssaName r' a')
    (cfg : Config) (a : UInt64) (d : Decoded) :
    let out := (lowerExpr x).runAt cfg a d s
    ∀ w ∈ out.1.symbols,
      (∃ v ∈ x.vars, ∃ r, v.register? = some r ∧ out.2.locals.IsRegister r w ∧
        ∀ r' a', out.2.locals.ssa? r' a' ≠ some w) ∨
      ∃ v ∈ x.extracted, ∃ r f a', v.register? = some r ∧
        (d.reachingDefs.filterMap Fact.value?).find? (fun f => f.var.register? == some r) = some f ∧
        f.addresses = [a'] ∧ out.2.locals.ssa? r a' = some w := by
  intro out w hw
  let site : Site := ⟨cfg, a, d.reachingDefs.filterMap Fact.value?⟩
  let s₀ : Session := { s with pending := .ofDecoded d }
  have hmentions := lowerExpr_mentions hx (List.Subset.refl x.vars) (List.Subset.refl x.extracted)
  have hwidens : s.locals.Widens out.2.locals := hmentions.steps.widens site s₀
  have hsound : out.2.locals.Sound := hwidens.sound hs
  rcases hmentions.reads site s₀ hs (fun _ h => nomatch h) w hw with
    ⟨v, hv, r, hr, hregister⟩ | ⟨v, hv, r, hr, hreads⟩
  · refine .inl ⟨v, hv, r, hr, hregister, fun r' a' hw' => ?_⟩
    have hknown : (s.locals.ssa? r' a').isSome := by
      rw [← hwidens.ssa? hs.toWellNamed, hw']
      rfl
    refine hnames v hv r hr r' a' hknown ?_
    rw [← hregister.name hsound, hsound.toWellNamed.ssa?_name hw']
  · obtain ⟨f, a', hf, ha', hssa⟩ := Site.reachingVariable?_eq hreads
    exact .inr ⟨v, hv, r, f, a', hr, hf, ha', hssa⟩

/-- The definition at `0x8` is the only one that was asked for. -/
theorem definedSession_ssa? {r : String} {a : UInt64}
    (h : (definedSession.locals.ssa? r a).isSome) : r = "R3" ∧ a = 0x8 := by
  obtain ⟨w, hw⟩ := Option.isSome_iff_exists.mp h
  obtain ⟨v, hv, -⟩ := Option.map_eq_some_iff.mp hw
  have hmem : (⟨r, a, v⟩ : SsaVariable) ∈ [⟨"R3", 0x8, 0⟩] := Locals.mem_of_ssaId? hv
  simp only [List.mem_singleton, SsaVariable.mk.injEq] at hmem
  exact ⟨hmem.1, hmem.2.1⟩

/-- In a sum, a register is mentioned as it is, although its only definition has a variable. -/
theorem lowerExpr_registers_of_sum :
    let x : Sym.Expr := .apply .plus [.var ⟨"R3", 1, .register "R3"⟩, .const (.int 1 .w32)]
    let out := (lowerExpr x).runAt {} 0x10 (reachedFrom ["0x8"]) definedSession
    ∀ w ∈ out.1.symbols, out.2.locals.IsRegister "R3" w ∧ ∀ r a, out.2.locals.ssa? r a ≠ some w := by
  intro x out w hw
  have hx : x.OverPlainRegisters := Sym.Expr.MadeOf.binary (.var ⟨rfl, rfl⟩) (.const trivial) trivial
  have hvars : x.vars = [⟨"R3", 1, .register "R3"⟩] := rfl
  have hnames : ∀ v ∈ x.vars, ∀ r, v.register? = some r →
      ∀ r' a', (definedSession.locals.ssa? r' a').isSome → r ≠ ssaName r' a' := by
    intro v hv r hr r' a' hknown
    rw [hvars, List.mem_singleton] at hv
    subst hv
    obtain ⟨rfl, rfl⟩ := definedSession_ssa? hknown
    exact Option.some.inj hr ▸ (Locals.ssaName_ne "R3" 0x8).symm
  rcases lowerExpr_registers hx definedSession_sound hnames {} 0x10 (reachedFrom ["0x8"]) w hw with
    ⟨v, hv, r, hr, hregister, hne⟩ | ⟨v, hv, -⟩
  · rw [hvars, List.mem_singleton] at hv
    subst hv
    obtain rfl : "R3" = r := Option.some.inj hr
    exact ⟨hregister, hne⟩
  · cases hv

/-- Below the operator that takes the lowest byte, a register is read through the variable of its
definition: the low-level form of the lowest byte of `R3` mentions `R3_8`. No register has a variable
yet. -/
theorem lowerExpr_reads_definition :
    let x : Sym.Expr := .apply .lsb [.var ⟨"R3", 1, .register "R3"⟩]
    let out := (lowerExpr x).runAt {} 0x10 (reachedFrom ["0x8"]) definedSession
    definedSession.locals.registers.isEmpty ∧
      ∃ w, w.name = "R3_8" ∧ out.1.symbols = [w] ∧ out.2.locals.ssa? "R3" 0x8 = some w := by
  refine ⟨rfl, definedSession.locals.get 0, by decide, ?_, ?_⟩
  · rfl
  · rfl

end LiftM

end FactLift
