import FactLift.Proofs.Lift.Steps
import FactLift.Proofs.Symbols.LocalCalls

/-! What lifting a value does to the local symbols.

In a sound table (`Locals.Sound`) the variables of registers, too, are called as the table says; any
calls keep a table sound (`Session.sound_afterAll`). Lifting a value only makes up variables without
types and lets new names stand for them: definitions and their constants stay as they are
(`Locals.Widens`). `Steps.widens` says so for everything that is put together from single steps. -/

namespace FactLift

open C

namespace Locals

variable {l l' l'' : Locals}

/-! ### Sound tables -/

/-- Every table leads to variables that are called as it says, that of registers included. -/
structure Sound (l : Locals) : Prop extends l.WellNamed where
  registers : ∀ (name : String) (v : VarId), l.registers[name]? = some v → l.IsNamed v name

theorem Sound.of_later (h : l.Sound) (hl : l.Later l') (hnamed : l'.WellNamed)
    (hregisters : l'.registers = l.registers) : l'.Sound :=
  ⟨hnamed, fun name v hv => (h.registers name v (hregisters ▸ hv)).later hl⟩

theorem registers_addSymbol (l : Locals) (s : Symbol) :
    (l.addSymbol s).2.registers = l.registers := by
  unfold addSymbol
  split <;> rfl

theorem Sound.addSymbol (h : l.Sound) (s : Symbol) : (l.addSymbol s).2.Sound :=
  h.of_later (l.addSymbol_adds s).later ((l.addSymbol_adds s).wellNamed h.toWellNamed)
    (l.registers_addSymbol s)

theorem Sound.addFormal (h : l.Sound) (name : String) (t : Ty) (location : ParameterLocation) :
    (l.addFormal name t location).2.Sound := by
  refine h.of_later (l.addFormal_later name t location) (h.toWellNamed.addFormal name t location) ?_
  cases location <;> rfl

/-- The variable of a register is known, or it is entered under the name of the register. -/
theorem register_cases (l : Locals) (name : String) :
    (∃ v, l.registers[name]? = some v ∧ l.register name = (v, l)) ∨
    (∃ v l', l.registers[name]? = none ∧
      l.addSymbol { name, description := some "register" } = (v, l') ∧
      l.register name = (v, { l' with registers := l'.registers.insert name v })) := by
  unfold register
  cases hv : l.registers[name]? with
  | some v => exact .inl ⟨v, rfl, rfl⟩
  | none => exact .inr ⟨_, _, rfl, rfl, rfl⟩

theorem Sound.slot (h : l.Sound) (offset : Int64) (t : Option Ty) :
    (l.slot offset t).2.Sound := by
  refine h.of_later (l.slot_later offset t).1 (h.toWellNamed.slot offset t) ?_
  unfold Locals.slot
  split
  · rfl
  · exact l.registers_addSymbol _

theorem Sound.freshTemporary (h : l.Sound) (t : Option Ty) : (l.freshTemporary t).2.Sound :=
  h.of_later (l.freshTemporary_later t) (h.toWellNamed.freshTemporary t) rfl

theorem Sound.ssaVariable (h : l.Sound) (r : String) (site : UInt64) (t : Option Ty) :
    (l.ssaVariable r site t).2.2.Sound := by
  refine h.of_later (l.ssaVariable_later r site t).1 (h.toWellNamed.ssaVariable r site t) ?_
  unfold Locals.ssaVariable
  split
  · rfl
  · exact l.registers_addSymbol _

/-- The variable of a register is entered under the name that it has. -/
theorem Sound.register (h : l.Sound) (name : String) : (l.register name).2.Sound := by
  rcases l.register_cases name with ⟨v, -, heq⟩ | ⟨v, l', -, hadd, heq⟩
  · rw [heq]
    exact h
  have hadds := l.addSymbol_adds { name, description := some "register" }
  have hnext := h.addSymbol { name, description := some "register" }
  rw [hadd] at hadds hnext
  rw [heq]
  refine ⟨⟨hnext.symbols, hnext.listed, hnext.slots, hnext.ssa⟩, fun r u hu => ?_⟩
  simp only [Std.TreeMap.getElem?_insert, Std.LawfulEqOrd.compare_eq_iff_eq] at hu
  split at hu
  next hname =>
    rw [← hname, ← Option.some.inj hu]
    exact hadds.isNamed h.toWellNamed
  next => exact hnext.registers r u hu

/-- The constants play no part. -/
theorem Sound.setConstant (h : l.Sound) (name : String) (value : Expr) :
    (l.setConstant name value).Sound :=
  ⟨⟨h.symbols, h.listed, h.slots, h.ssa⟩, h.registers⟩

/-! ### Definitions -/

/-- The variable of a definition has its name. -/
theorem WellNamed.ssa?_name (h : l.WellNamed) {r : String} {site : UInt64} {w : Symbol}
    (hw : l.ssa? r site = some w) : w.name = ssaName r site := by
  obtain ⟨v, hv, rfl⟩ := Option.map_eq_some_iff.mp hw
  exact (h.ssa _ (mem_of_ssaId? hv)).1.get

/-- A definition whose name stands for nothing was not asked for. -/
theorem WellNamed.ssaId?_eq_none (h : l.WellNamed) {r : String} {site : UInt64}
    (hname : ssaName r site ∉ l.symbols) : l.ssaId? r site = none := by
  cases hid : l.ssaId? r site with
  | none => rfl
  | some v =>
    obtain ⟨-, u, hu, -⟩ := h.ssa _ (mem_of_ssaId? hid)
    exact absurd (Std.TreeMap.mem_iff_isSome_getElem?.mpr (hu ▸ rfl)) hname

/-! ### Widening -/

/-- Variables without types are made up, and new names and registers stand for them. -/
structure Widens (l l' : Locals) : Prop where
  vars : ∀ (v : VarId) (s : Symbol), l.vars[v]? = some s → l'.vars[v]? = some s
  symbols : ∀ (name : String) (v : VarId), l.symbols[name]? = some v → l'.symbols[name]? = some v
  untyped : ∀ (name : String) (v : VarId), name ∉ l.symbols → l'.symbols[name]? = some v →
    ∃ s, l'.vars[v]? = some s ∧ s.type = none
  registers : ∀ (name : String) (v : VarId), l.registers[name]? = some v →
    l'.registers[name]? = some v
  ssa : l'.ssa = l.ssa
  constants : l'.constants = l.constants
  sound : l.Sound → l'.Sound

theorem Widens.refl (l : Locals) : l.Widens l where
  vars _ _ h := h
  symbols _ _ h := h
  untyped _ _ hnew hv :=
    absurd (Std.TreeMap.mem_iff_isSome_getElem?.mpr (hv ▸ rfl)) hnew
  registers _ _ h := h
  ssa := rfl
  constants := rfl
  sound := id

theorem Widens.trans (h : l.Widens l') (h' : l'.Widens l'') : l.Widens l'' where
  vars v s hv := h'.vars v s (h.vars v s hv)
  symbols name v hv := h'.symbols name v (h.symbols name v hv)
  untyped name v hnew hv := by
    by_cases hmade : name ∈ l'.symbols
    · -- the name was new in between, and it has stood for the same variable since
      obtain ⟨u, hu⟩ := Option.isSome_iff_exists.mp (Std.TreeMap.mem_iff_isSome_getElem?.mp hmade)
      obtain ⟨s, hs, htype⟩ := h.untyped name u hnew hu
      obtain rfl : u = v := Option.some.inj ((h'.symbols name u hu).symm.trans hv)
      exact ⟨s, h'.vars u s hs, htype⟩
    · exact h'.untyped name v hmade hv
  registers name v hv := h'.registers name v (h.registers name v hv)
  ssa := h'.ssa.trans h.ssa
  constants := h'.constants.trans h.constants
  sound := h'.sound ∘ h.sound

theorem Widens.constant? (h : l.Widens l') (name : String) : l'.constant? name = l.constant? name := by
  rw [Locals.constant?, h.constants, Locals.constant?]

theorem Widens.ssaId? (h : l.Widens l') (r : String) (site : UInt64) :
    l'.ssaId? r site = l.ssaId? r site := by
  rw [Locals.ssaId?, h.ssa, Locals.ssaId?]

theorem Widens.get (h : l.Widens l') {v : VarId} {name : String} (hv : l.IsNamed v name) :
    l'.get v = l.get v := by
  obtain ⟨s, hs, -⟩ := hv
  simp only [Locals.get, Array.getD_eq_getD_getElem?, hs, h.vars v s hs]

/-- Definitions lead to the same variables. -/
theorem Widens.ssa? (h : l.Widens l') (hl : l.WellNamed) (r : String) (site : UInt64) :
    l'.ssa? r site = l.ssa? r site := by
  rw [Locals.ssa?, h.ssaId?, Locals.ssa?]
  cases hid : l.ssaId? r site with
  | none => rfl
  | some v => exact congrArg some (h.get (hl.ssa _ (mem_of_ssaId? hid)).1)

/-- A new variable of a new name. -/
theorem widens_insert (l : Locals) {s : Symbol} (hname : s.name ∉ l.symbols) (htype : s.type = none) :
    l.Widens (l.insert s).2 where
  vars v s' hs' := by
    have hlt : v < l.vars.size := (Array.getElem?_eq_some_iff.mp hs').1
    show (l.vars.push s)[v]? = some s'
    rw [Array.getElem?_push, if_neg (Nat.ne_of_lt hlt), hs']
  symbols name v hv := by
    have hne : s.name ≠ name := by
      rintro rfl
      exact hname (Std.TreeMap.mem_iff_isSome_getElem?.mpr (hv ▸ rfl))
    rw [getElem?_symbols_insert, if_neg hne, hv]
  untyped name v hnew hv := by
    rw [getElem?_symbols_insert] at hv
    split at hv
    next => exact ⟨s, Option.some.inj hv ▸ Array.getElem?_push_size, htype⟩
    next => exact absurd (Std.TreeMap.mem_iff_isSome_getElem?.mpr (hv ▸ rfl)) hnew
  registers _ _ h := h
  ssa := rfl
  constants := rfl
  sound h := h.of_later (later_insert l s)
    (h.toWellNamed.insert s l.formals (fun _ => id) (.inl hname)) rfl

theorem widens_addSymbol (l : Locals) {s : Symbol} (htype : s.type = none) :
    l.Widens (l.addSymbol s).2 := by
  unfold addSymbol
  split
  next => exact .refl l
  next hnone =>
    refine l.widens_insert ?_ htype
    rw [Std.TreeMap.mem_iff_isSome_getElem?, hnone]
    exact Bool.false_ne_true

theorem widens_register (l : Locals) (name : String) : l.Widens (l.register name).2 := by
  have hsound (h : l.Sound) := h.register name
  rcases l.register_cases name with ⟨v, -, heq⟩ | ⟨v, l', hnone, hadd, heq⟩
  · rw [heq]
    exact .refl l
  have hwidens := l.widens_addSymbol (s := { name, description := some "register" }) rfl
  rw [hadd] at hwidens
  rw [heq] at hsound ⊢
  refine ⟨hwidens.vars, hwidens.symbols, hwidens.untyped, fun r u hu => ?_, hwidens.ssa,
    hwidens.constants, hsound⟩
  have hne : ¬name = r := by
    rintro rfl
    rw [hnone] at hu
    cases hu
  simpa [Std.TreeMap.getElem?_insert, hne] using hwidens.registers r u hu

theorem widens_flag (l : Locals) (name : String) : l.Widens (l.flag name).2 :=
  l.widens_addSymbol rfl

theorem widens_slot (l : Locals) (offset : Int64) : l.Widens (l.slot offset none).2 := by
  have hsound (h : l.Sound) := h.slot offset none
  cases hslot : l.slots[offset]? with
  | some v => simpa only [slot, hslot] using Widens.refl l
  | none =>
    simp only [slot, hslot] at hsound ⊢
    have hwidens := l.widens_addSymbol
      (s := { name := slotName offset, description := some "stack" }) rfl
    exact ⟨hwidens.vars, hwidens.symbols, hwidens.untyped, hwidens.registers, hwidens.ssa,
      hwidens.constants, hsound⟩

theorem widens_freshTemporary (l : Locals) : l.Widens (l.freshTemporary none).2 := by
  have hsound (h : l.Sound) := h.freshTemporary none
  obtain ⟨n, -, hfree, -, heq⟩ := l.freshTemporary_name none
  rw [heq] at hsound ⊢
  have hinsert := widens_insert { l with lastTemporary := n }
    (s := { name := temporaryName n, description := some "temporary" }) hfree rfl
  exact ⟨hinsert.vars, hinsert.symbols, hinsert.untyped, hinsert.registers, hinsert.ssa,
    hinsert.constants, hsound⟩

end Locals

/-! ### Lifting a value -/

/-- Everything that lifting a value takes widens the local symbols. -/
theorem LiftM.Steps.widens {α : Type} {x : LiftM α} (hx : Steps x) (site : Site) (s : Session) :
    s.locals.Widens (x site s).2.locals := by
  induction hx generalizing s with
  | bind _ _ hx hf => exact (hx s).trans (hf _ _)
  | pure | read | globals | locals | attempt | note | report | global | lowerGlobal => exact .refl _
  | register name => exact s.locals.widens_register name
  | flag name => exact s.locals.widens_flag name
  | slot offset => exact s.locals.widens_slot offset
  | named name description => exact s.locals.widens_addSymbol rfl
  | temporary name =>
    rcases Session.temporaryOfType_cases site name none s with ⟨v, -, h⟩ | ⟨-, h⟩
    · rw [LiftM.temporaryVariable, h]
      exact .refl _
    · rw [LiftM.temporaryVariable, h]
      exact s.locals.widens_freshTemporary

/-! ### Any calls -/

namespace Session

variable {s : Session} (here : Site)

/-- **The step.** A call keeps a sound table sound. -/
theorem sound_after (h : s.locals.Sound) (call : LocalCall) : (s.after here call).locals.Sound := by
  cases call with
  | symbol v => exact h.addSymbol v
  | formal name t location => exact h.addFormal name t location
  | register name => exact h.register name
  | flag name => exact h.addSymbol _
  | slot offset t => exact h.slot offset t
  | ssa r site t => exact h.ssaVariable r site t
  | fresh t => exact h.freshTemporary t
  | temporary name t =>
    rcases temporaryOfType_cases here name t s with ⟨v, -, heq⟩ | ⟨-, heq⟩
    · rw [after, heq]
      exact h
    · rw [after, heq]
      exact h.freshTemporary t

/-- **The run.** So do any calls. -/
theorem sound_afterAll (h : s.locals.Sound) (calls : List LocalCall) :
    (s.afterAll here calls).locals.Sound := by
  induction calls generalizing s with
  | nil => exact h
  | cons call calls ih => exact ih (sound_after here h call)

theorem sound_start (w : Workspace) (function : String) : (start w function).locals.Sound :=
  ⟨(wellNamed_start w function).locals, by simp [start]⟩

end Session

end FactLift
