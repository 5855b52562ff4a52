import FactLift.Proofs.Lift.TwinRuns
import FactLift.Proofs.Symbols.MadeUp

/-! The global symbols only grow.

Definitions and variables that are there stay, and a variable without a type may be given one
(`Globals.Grows`). Lifting a function does less: it changes nothing and adds variables that it makes
up (`FunctionFacts.Extends`). `Workspace.globals_only_grow` puts both together, for everything that
is ever done to global symbols. -/

namespace FactLift

open C

namespace Globals

variable {g g' g'' : Globals}

/-! ### Growing -/

/-- Everything that is in a table is in the other one. Only a variable without a type may differ,
by having one. -/
structure Grows (g g' : Globals) : Prop where
  composites : ∀ key c, g.composite? key = some c → g'.composite? key = some c
  typedefs : ∀ (name : String) (t : Ty), g.typedefs[name]? = some t → g'.typedefs[name]? = some t
  vars : ∀ name s, g.named? name = some s →
    g'.named? name = some s ∨
      s.type = none ∧ ∃ t, g'.named? name = some { s with type := some t }

namespace Grows

theorem refl (g : Globals) : g.Grows g := ⟨fun _ _ h => h, fun _ _ h => h, fun _ _ h => .inl h⟩

theorem trans (h : g.Grows g') (h' : g'.Grows g'') : g.Grows g'' where
  composites key c hc := h'.composites key c (h.composites key c hc)
  typedefs name t ht := h'.typedefs name t (h.typedefs name t ht)
  vars name s hs := by
    rcases h.vars name s hs with hsame | ⟨hnone, t, htyped⟩
    · exact h'.vars name s hsame
    · -- a type that was given stays
      rcases h'.vars name _ htyped with hsame | ⟨hnone', -⟩
      · exact .inr ⟨hnone, t, hsame⟩
      · cases hnone'

end Grows

/-! ### What is done to a table -/

/-- A composite is refused if there is another one under its key. -/
theorem addComposite_refused (g : Globals) (c : Composite) :
    (∃ e, g.addComposite c = .error e) ↔ ∃ c', g.composite? c.key = some c' ∧ ¬ c'.same c := by
  unfold addComposite
  cases hc : g.composite? c.key with
  | none => simp
  | some c' => cases hsame : c'.same c <;> simp [hsame]

theorem grows_addComposite {c : Composite} (h : g.addComposite c = .ok g') : g.Grows g' := by
  rcases addComposite_cases h with rfl | ⟨hnew, rfl⟩
  · exact .refl g'
  · refine ⟨fun key c' hc' => ?_, fun _ _ h => h, fun _ _ h => .inl h⟩
    have hkey : c.key ≠ key := by
      rintro rfl
      rw [hnew] at hc'
      cases hc'
    simpa [composite?, Std.TreeMap.getElem?_insert, hkey] using hc'

theorem grows_addTypedef (g : Globals) (name : String) (t : Ty) :
    g.Grows (g.addTypedef name t) := by
  unfold addTypedef
  split
  · exact .refl g
  next hnew =>
    refine ⟨fun _ _ h => h, fun name' t' ht' => ?_, fun _ _ h => .inl h⟩
    have hname : name ≠ name' := by
      rintro rfl
      simp [Std.TreeMap.getElem?_eq_none (by simpa using hnew)] at ht'
    simpa [Std.TreeMap.getElem?_insert, hname] using ht'

theorem grows_addVariable (g : Globals) (s : Symbol) : g.Grows (g.addVariable s).2 where
  composites key c hc := by rwa [← (sameTypes_addVariable g s).composite?]
  typedefs name t ht := by rwa [← (sameTypes_addVariable g s).typedefs]
  vars _ _ hv := .inl (named?_of_addVariable s hv)

theorem refine_cases {s : Symbol} {t : Ty} (h : g.refine s t = .ok g') :
    s.type = none ∧ g' = { g with vars := g.vars.insert s.name { s with type := some t } } := by
  unfold Globals.refine Symbol.refine at h
  cases hs : s.type with
  | none =>
    rw [hs] at h
    exact ⟨rfl, (Except.ok.inj h).symm⟩
  | some _ =>
    rw [hs] at h
    cases h

section Refine

variable (hg : g.Registered) {name : String} {s : Symbol} {t : Ty} (hs : g.named? name = some s)
  (h : g.refine s t = .ok g')
include hg hs h

theorem named?_refine (n : String) :
    g'.named? n = if name = n then some { s with type := some t } else g.named? n := by
  obtain ⟨-, rfl⟩ := refine_cases h
  rw [← hg.names name s hs]
  exact named?_insert g.vars { s with type := some t } n

theorem grows_refine : g.Grows g' where
  composites key c hc := by
    obtain ⟨-, rfl⟩ := refine_cases h
    exact hc
  typedefs name t ht := by
    obtain ⟨-, rfl⟩ := refine_cases h
    exact ht
  vars n v hv := by
    rw [named?_refine hg hs h]
    split
    next heq =>
      obtain rfl : s = v := Option.some.inj (hs.symm.trans (heq ▸ hv))
      exact .inr ⟨(refine_cases h).1, t, rfl⟩
    next => exact .inl hv

/-- The variable keeps its name and its address. -/
theorem registered_refine : g'.Registered := by
  have hname := hg.names name s hs
  have hnamed := named?_refine hg hs h
  have haddresses : g'.addresses = g.addresses := by
    obtain ⟨-, rfl⟩ := refine_cases h
    rfl
  refine ⟨fun n v hv => ?_, fun a n ha => ?_, fun n v a hv ha => ?_⟩
  · change g'.named? n = some v at hv
    rw [hnamed] at hv
    split at hv
    next heq => rw [← Option.some.inj hv, ← heq, hname]
    next => exact hg.names n v hv
  · rw [haddresses] at ha
    obtain ⟨v, hv, hva⟩ := hg.known a n ha
    show ∃ v, g'.named? n = some v ∧ _
    rw [hnamed]
    split
    next heq =>
      obtain rfl : s = v := Option.some.inj (hs.symm.trans (heq ▸ hv))
      exact ⟨_, rfl, hva⟩
    next => exact ⟨v, hv, hva⟩
  · rw [haddresses]
    change g'.named? n = some v at hv
    rw [hnamed] at hv
    split at hv
    next =>
      rw [← Option.some.inj hv] at ha
      exact hg.listed name s a hs ha
    next => exact hg.listed n v a hv ha

end Refine

end Globals

/-! ### Lifting a function -/

/-- A function that one of the instructions calls by its name. -/
def FunctionFacts.Calls (p : ProgramFacts) (f : FunctionFacts) (name : String) : Prop :=
  ∃ i ∈ f.instructions, ∃ d, decodeRecord (p.context f) i.record = .ok d ∧
    i.operation.callee? d = some name

theorem Decoded.function_notMem (name : String) (d : Decoded) : .function name ∉ d.lookups := by
  simp only [Decoded.lookups, List.mem_append, List.mem_flatMap, not_or, not_exists, not_and]
  exact ⟨fun v _ => v.function_notMem name, fun x _ => x.function_notMem name⟩

theorem FunctionFacts.calls_of_mem_lookups {p : ProgramFacts} {f : FunctionFacts} {name : String}
    (h : .function name ∈ f.lookups p) : f.Calls p name := by
  obtain ⟨i, hi, hmem⟩ := List.mem_flatMap.mp h
  unfold InstructionFacts.lookups at hmem
  split at hmem
  · cases hmem
  next d hd =>
    split at hmem
    · cases hmem
    · rcases List.mem_append.mp hmem with hmem | hmem
      · exact absurd hmem (d.function_notMem name)
      · obtain ⟨n, hn, hname⟩ := List.mem_map.mp hmem
        obtain rfl := Lookup.function.inj hname
        exact ⟨i, hi, d, hd, Option.mem_toList.mp hn⟩

/-- What lifting a function does to global symbols: what is there stays as it is, and what is new
was made up, at an address or as a function that is called. -/
structure FunctionFacts.Extends (p : ProgramFacts) (f : FunctionFacts) (g g' : Globals) : Prop where
  composites : ∀ key, g'.composite? key = g.composite? key
  typedefs : ∀ name : String, g'.typedefs[name]? = g.typedefs[name]?
  kept : ∀ name s, g.named? name = some s → g'.named? name = some s
  added : ∀ name s, g.named? name = none → g'.named? name = some s →
    s.name = name ∧
      ((∃ a, .access a ∈ f.lookups p ∧ s = Globals.unknownVariable a) ∨
        s = Globals.unknownFunction name ∧ f.Calls p name)

section Lift

variable {w : Workspace} (hw : w.globals.Registered) (cfg : Config) (p : ProgramFacts)
  (f : FunctionFacts)
include hw

theorem liftFunction_made :
    w.globals.Made (f.lookups p) (liftFunction cfg p f w).2.globals :=
  (Pairing.liftFunction_agrees (c := ⟨f.lookups p, w, w⟩) (.refl hw _) cfg
    (List.Subset.refl _)).2

theorem liftFunction_extends : f.Extends p w.globals (liftFunction cfg p f w).2.globals := by
  have hmade := liftFunction_made hw cfg p f
  refine ⟨fun key => (hmade.sameTypes.composite? key).symm,
    fun name => by rw [hmade.sameTypes.typedefs], fun _ _ hs => hmade.kept hs,
    fun name s hnew hs => ?_⟩
  obtain ⟨q, hq, hmadeUp, hname⟩ := hmade.added hnew hs
  refine ⟨hname, ?_⟩
  cases q with
  | constant a => cases hmadeUp
  | access a => exact .inl ⟨a, hq, (Option.some.inj hmadeUp).symm⟩
  | function n =>
    obtain rfl := Option.some.inj hmadeUp
    obtain rfl : n = name := hname
    exact .inr ⟨rfl, f.calls_of_mem_lookups hq⟩

end Lift

/-! ### Everything that is done -/

/-- Something that is done to global symbols. -/
inductive GlobalAction
  | addComposite (c : Composite)
  | addTypedef (name : String) (t : Ty)
  | addVariable (s : Symbol)
  /-- Gives the variable with a name a type. -/
  | refine (name : String) (t : Ty)
  | lift (cfg : Config) (p : ProgramFacts) (f : FunctionFacts)

namespace Workspace

/-- The global symbols that an operation gives, or those that are there if it is refused. -/
def orKeep (w : Workspace) (r : Except Error Globals) : Workspace :=
  match r with
  | .ok g => { w with globals := g }
  | .error _ => w

/-- Does something to the global symbols. -/
def act (w : Workspace) : GlobalAction → Workspace
  | .addComposite c => w.orKeep (w.globals.addComposite c)
  | .addTypedef name t => { w with globals := w.globals.addTypedef name t }
  | .addVariable s => { w with globals := (w.globals.addVariable s).2 }
  | .refine name t => (w.globals.named? name).elim w fun s => w.orKeep (w.globals.refine s t)
  | .lift cfg p f => (liftFunction cfg p f w).2

/-- What is true of the table that is there and of one that an operation gives. -/
theorem orKeep_globals {motive : Globals → Prop} {w : Workspace} {r : Except Error Globals}
    (hkeep : motive w.globals) (hok : ∀ g, r = .ok g → motive g) :
    motive (w.orKeep r).globals := by
  cases r with
  | error e => exact hkeep
  | ok g => exact hok g rfl

/-- **The step.** Whatever is done to a table that is in order leaves it in order, and grown. -/
theorem act_grows {w : Workspace} (hw : w.globals.Registered) (a : GlobalAction) :
    (w.act a).globals.Registered ∧ w.globals.Grows (w.act a).globals := by
  cases a with
  | addComposite c =>
    exact orKeep_globals (motive := fun g => g.Registered ∧ w.globals.Grows g) ⟨hw, .refl _⟩
      fun g hg => ⟨hw.addComposite hg, Globals.grows_addComposite hg⟩
  | addTypedef name t => exact ⟨hw.addTypedef name t, Globals.grows_addTypedef _ _ _⟩
  | addVariable s => exact ⟨hw.addVariable s, Globals.grows_addVariable _ _⟩
  | refine name t =>
    rw [act]
    cases hs : w.globals.named? name with
    | none => exact ⟨hw, .refl _⟩
    | some s =>
      exact orKeep_globals (motive := fun g => g.Registered ∧ w.globals.Grows g) ⟨hw, .refl _⟩
        fun g hg => ⟨Globals.registered_refine hw hs hg, Globals.grows_refine hw hs hg⟩
  | lift cfg p f =>
    have hmade := liftFunction_made hw cfg p f
    have hextends := liftFunction_extends hw cfg p f
    refine ⟨hw.made hmade, fun key c hc => ?_, fun name t ht => ?_, fun name s hs => ?_⟩
    · exact (hextends.composites key).trans hc
    · exact (hextends.typedefs name).trans ht
    · exact .inl (hextends.kept name s hs)

/-- **The run.** -/
theorem acts_grow {w : Workspace} (hw : w.globals.Registered) (actions : List GlobalAction) :
    (actions.foldl act w).globals.Registered ∧ w.globals.Grows (actions.foldl act w).globals := by
  induction actions generalizing w with
  | nil => exact ⟨hw, .refl _⟩
  | cons a rest ih =>
    obtain ⟨hregistered, hgrows⟩ := act_grows hw a
    exact ⟨(ih hregistered).1, hgrows.trans (ih hregistered).2⟩

/-- **The global symbols.** From an empty table on, whatever is done lets it grow. A composite that
is refused changes nothing, and is so if another one is there. Lifting a function, whether it
succeeds or not, changes nothing that is there. -/
theorem globals_only_grow (w : Workspace) (before after : List GlobalAction) :
    let w₁ := before.foldl act { w with globals := {} }
    w₁.globals.Grows (after.foldl act w₁).globals ∧
      (∀ c, (∃ e, w₁.globals.addComposite c = .error e) →
        w₁.act (.addComposite c) = w₁ ∧
          ∃ c', w₁.globals.composite? c.key = some c' ∧ ¬ c'.same c) ∧
      ∀ (cfg : Config) (p : ProgramFacts) (f : FunctionFacts),
        f.Extends p w₁.globals (w₁.act (.lift cfg p f)).globals := by
  intro w₁
  have hw : w₁.globals.Registered := (acts_grow Globals.registered_empty before).1
  refine ⟨(acts_grow hw after).2, fun c hc => ⟨?_, (Globals.addComposite_refused _ c).mp hc⟩,
    fun cfg p f => liftFunction_extends hw cfg p f⟩
  obtain ⟨e, he⟩ := hc
  rw [act, he]
  rfl

end Workspace

end FactLift
