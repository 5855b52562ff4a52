import FactLift.Lift.Session
import FactLift.Proofs.MultiMap
import FactLift.Proofs.Symbols.Names
import Mathlib.Data.List.Forall2
import Mathlib.Data.List.Induction
import Mathlib.Data.List.Nodup
import Mathlib.Data.List.Perm.Basic

/-! Local symbols after any calls.

A `LocalCall` asks for a local variable in one of eight ways. Variables are only ever added, and a
variable that is there keeps its name and, once it has one, its type (`Later`). Every table leads to
variables that are called as the table says (`WellNamed`); the made-up names tell apart what they
stand for, so different things never share a name. Both are proved for one call and then for a run.
`localCalls_kept_apart` is what this says about every run from an empty table. -/

namespace FactLift

open C

namespace Locals

/-! ### Growth -/

/-- The number stands for a variable of that name. -/
def IsNamed (l : Locals) (v : VarId) (name : String) : Prop :=
  ∃ s, l.vars[v]? = some s ∧ s.name = name

/-- What later symbols keep of earlier ones: the names and types of variables, the variables at
frame offsets and those of definitions. -/
structure Later (l l' : Locals) : Prop where
  vars : ∀ (v : VarId) (s : Symbol), l.vars[v]? = some s →
    ∃ s' : Symbol, l'.vars[v]? = some s' ∧ s'.name = s.name ∧ (s.type.isSome → s' = s)
  slots : ∀ (offset : Int64) (v : VarId), l.slots[offset]? = some v → l'.slots[offset]? = some v
  ssa : ∀ register site v, l.ssaId? register site = some v → l'.ssaId? register site = some v

/-- Every table leads to variables that are called as it says, and a name that a variable has stands
for a variable. The name of a definition stands for its variable, unless a parameter took it. -/
structure WellNamed (l : Locals) : Prop where
  symbols : ∀ (name : String) (v : VarId), l.symbols[name]? = some v → l.IsNamed v name
  listed : ∀ (v : VarId) (s : Symbol), l.vars[v]? = some s → s.name ∈ l.symbols
  slots : ∀ (offset : Int64) (v : VarId), l.slots[offset]? = some v → l.IsNamed v (slotName offset)
  ssa : ∀ d ∈ l.ssa.toList, l.IsNamed d.var (ssaName d.register d.site) ∧
    ∃ v, l.symbols[ssaName d.register d.site]? = some v ∧ (v = d.var ∨ v ∈ l.formals.toList)

variable {l l' l'' : Locals}

theorem IsNamed.get {v : VarId} {name : String} (h : l.IsNamed v name) : (l.get v).name = name := by
  obtain ⟨s, hs, hname⟩ := h
  rw [Locals.get, Array.getD_eq_getD_getElem?, hs]
  exact hname

theorem IsNamed.later {v : VarId} {name : String} (h : l.IsNamed v name) (hl : l.Later l') :
    l'.IsNamed v name := by
  obtain ⟨s, hs, hname⟩ := h
  obtain ⟨s', hs', hname', -⟩ := hl.vars v s hs
  exact ⟨s', hs', hname'.trans hname⟩

theorem Later.refl (l : Locals) : l.Later l where
  vars _ s hs := ⟨s, hs, rfl, fun _ => rfl⟩
  slots _ _ h := h
  ssa _ _ _ h := h

theorem Later.trans (h : l.Later l') (h' : l'.Later l'') : l.Later l'' where
  vars v s hs := by
    obtain ⟨s', hs', hname, htype⟩ := h.vars v s hs
    obtain ⟨s'', hs'', hname', htype'⟩ := h'.vars v s' hs'
    refine ⟨s'', hs'', hname'.trans hname, fun hsome => ?_⟩
    have heq := htype hsome
    subst heq
    exact htype' hsome
  slots offset v hv := h'.slots offset v (h.slots offset v hv)
  ssa register site v hv := h'.ssa register site v (h.ssa register site v hv)

/-! ### Making a variable -/

theorem getElem?_symbols_insert (l : Locals) (s : Symbol) (name : String) :
    (l.insert s).2.symbols[name]? =
      if s.name = name then some l.vars.size else l.symbols[name]? := by
  simp [Locals.insert, Std.TreeMap.getElem?_insert]

theorem mem_symbols_insert (l : Locals) (s : Symbol) (name : String) :
    name ∈ (l.insert s).2.symbols ↔ s.name = name ∨ name ∈ l.symbols := by
  simp [Locals.insert, Std.TreeMap.mem_insert]

theorem later_insert (l : Locals) (s : Symbol) : l.Later (l.insert s).2 where
  vars v s' hs' := by
    have hlt : v < l.vars.size := (Array.getElem?_eq_some_iff.mp hs').1
    refine ⟨s', ?_, rfl, fun _ => rfl⟩
    show (l.vars.push s)[v]? = some s'
    rw [Array.getElem?_push, if_neg (Nat.ne_of_lt hlt), hs']
  slots _ _ h := h
  ssa _ _ _ h := h

theorem isNamed_insert (l : Locals) (s : Symbol) : (l.insert s).2.IsNamed (l.insert s).1 s.name :=
  ⟨s, Array.getElem?_push_size, rfl⟩

/-- A new variable is called as its name says. If the name stood for another variable, the new one
has to be a parameter. -/
theorem WellNamed.insert (h : l.WellNamed) (s : Symbol) (formals : Array VarId)
    (hformals : ∀ v ∈ l.formals.toList, v ∈ formals.toList)
    (hs : s.name ∉ l.symbols ∨ l.vars.size ∈ formals.toList) :
    ({ (l.insert s).2 with formals } : Locals).WellNamed := by
  have hlater : l.Later { (l.insert s).2 with formals } :=
    ⟨(later_insert l s).vars, fun _ _ => id, fun _ _ _ => id⟩
  constructor
  · intro name v hv
    change (l.insert s).2.symbols[name]? = some v at hv
    rw [getElem?_symbols_insert] at hv
    split at hv
    next heq =>
      rw [← heq, ← Option.some.inj hv]
      exact isNamed_insert l s
    next => exact (h.symbols name v hv).later hlater
  · intro v s' hs'
    change (l.vars.push s)[v]? = some s' at hs'
    refine (mem_symbols_insert l s s'.name).mpr ?_
    rw [Array.getElem?_push] at hs'
    split at hs'
    next => exact .inl (congrArg Symbol.name (Option.some.inj hs'))
    next => exact .inr (h.listed v s' hs')
  · exact fun offset v hv => (h.slots offset v hv).later hlater
  · intro d hd
    obtain ⟨hnamed, v, hv, hvar⟩ := h.ssa d hd
    refine ⟨hnamed.later hlater, ?_⟩
    show ∃ v, (l.insert s).2.symbols[ssaName d.register d.site]? = some v ∧ _
    rw [getElem?_symbols_insert]
    split
    next heq =>
      refine ⟨l.vars.size, rfl, .inr (hs.resolve_left fun hnew => hnew ?_)⟩
      rw [heq, Std.TreeMap.mem_iff_isSome_getElem?, hv]
      rfl
    next => exact ⟨v, hv, hvar.imp_right (hformals v)⟩

/-- Asking for a name gives a variable of that name, and touches no table but the names. -/
structure Adds (l : Locals) (name : String) (v : VarId) (l' : Locals) : Prop where
  later : l.Later l'
  wellNamed : l.WellNamed → l'.WellNamed
  symbol : l'.symbols[name]? = some v
  slots : l'.slots = l.slots
  ssa : l'.ssa = l.ssa

theorem addSymbol_adds (l : Locals) (s : Symbol) :
    l.Adds s.name (l.addSymbol s).1 (l.addSymbol s).2 := by
  unfold addSymbol
  split
  next v hv => exact ⟨.refl l, id, hv, rfl, rfl⟩
  next hnone =>
    refine ⟨later_insert l s, fun h => ?_, ?_, rfl, rfl⟩
    · refine h.insert s l.formals (fun _ => id) (.inl ?_)
      rw [Std.TreeMap.mem_iff_isSome_getElem?, hnone]
      exact Bool.false_ne_true
    · exact (getElem?_symbols_insert l s s.name).trans (if_pos rfl)

theorem Adds.isNamed {name : String} {v : VarId} (h : l.Adds name v l') (hl : l.WellNamed) :
    l'.IsNamed v name :=
  (h.wellNamed hl).symbols name v h.symbol

/-! ### Frame offsets -/

theorem slot_later (l : Locals) (offset : Int64) (t : Option Ty) :
    l.Later (l.slot offset t).2 ∧ (l.slot offset t).2.slots[offset]? = some (l.slot offset t).1 ∧
      (l.slot offset t).2.ssa = l.ssa := by
  unfold slot
  split
  next v hv => exact ⟨.refl l, hv, rfl⟩
  next hnone =>
    have hadds :=
      addSymbol_adds l { name := slotName offset, type := t, description := some "stack" }
    refine ⟨⟨hadds.later.vars, fun o v hv => ?_, hadds.later.ssa⟩,
      Std.TreeMap.getElem?_insert_self, hadds.ssa⟩
    have hne : ¬offset = o := by
      rintro rfl
      rw [hnone] at hv
      cases hv
    simpa [Std.TreeMap.getElem?_insert, hne, hadds.slots] using hv

theorem WellNamed.slot (h : l.WellNamed) (offset : Int64) (t : Option Ty) :
    (l.slot offset t).2.WellNamed := by
  unfold Locals.slot
  split
  · exact h
  · have hadds :=
        addSymbol_adds l { name := slotName offset, type := t, description := some "stack" }
    have hnext := hadds.wellNamed h
    refine ⟨hnext.symbols, hnext.listed, fun o v hv => ?_, hnext.ssa⟩
    rw [Std.TreeMap.getElem?_insert] at hv
    split at hv
    next heq =>
      rw [← Std.LawfulEqOrd.compare_eq_iff_eq.mp heq, ← Option.some.inj hv]
      exact hadds.isNamed h
    next => exact hnext.slots o v hv

/-! ### Definitions of registers -/

/-- The registers that are defined at a site, in the order in which they were asked for. -/
def definedAt (l : Locals) (site : UInt64) : List String :=
  (l.ssa.toList.filter (·.site == site)).map (·.register)

theorem ssaId?_isSome_iff {r : String} {site : UInt64} :
    (l.ssaId? r site).isSome ↔ r ∈ l.definedAt site := by
  simp only [ssaId?, Option.isSome_map, List.find?_isSome, definedAt, List.mem_map,
    List.mem_filter, Bool.and_eq_true, beq_iff_eq]
  grind

/-- The variable of a definition is that of an entry. -/
theorem mem_of_ssaId? {r : String} {site : UInt64} {v : VarId} (h : l.ssaId? r site = some v) :
    ⟨r, site, v⟩ ∈ l.ssa.toList := by
  obtain ⟨d, hd, rfl⟩ := Option.map_eq_some_iff.mp h
  have hmem := List.mem_of_find?_eq_some hd
  have hkey := List.find?_some hd
  simp only [Bool.and_eq_true, beq_iff_eq] at hkey
  obtain ⟨rfl, rfl⟩ := hkey
  exact hmem

/-- Gives a variable a type if it has none, and changes nothing else. -/
theorem later_settleType (l : Locals) (v : VarId) (t : Option Ty) : l.Later (l.settleType v t) where
  vars u s hs := by
    simp only [settleType, Array.getElem?_modify, hs]
    split
    · cases htype : s.type <;> simp [htype]
    · simp
  slots _ _ h := h
  ssa _ _ _ h := h

theorem WellNamed.settleType (h : l.WellNamed) (v : VarId) (t : Option Ty) :
    (l.settleType v t).WellNamed where
  symbols name u hu := (h.symbols name u hu).later (later_settleType l v t)
  listed u s' hs' := by
    simp only [Locals.settleType, Array.getElem?_modify] at hs'
    cases hs : l.vars[u]? with
    | none => simp [hs] at hs'
    | some s =>
      have hname : s'.name = s.name := by
        rw [hs] at hs'
        split at hs'
        · cases htype : s.type <;> simp [htype] at hs' <;> simp [← hs']
        · simp at hs'
          rw [hs']
      rw [hname]
      exact h.listed u s hs
  slots offset u hu := (h.slots offset u hu).later (later_settleType l v t)
  ssa d hd := ⟨(h.ssa d hd).1.later (later_settleType l v t), (h.ssa d hd).2⟩

/-- A definition is asked for again, or its variable is entered behind the others. -/
theorem ssaVariable_cases (l : Locals) (r : String) (site : UInt64) (t : Option Ty) :
    (∃ v, l.ssaId? r site = some v ∧ l.ssaVariable r site t = (v, false, l.settleType v t)) ∨
    (∃ v l', l.ssaId? r site = none ∧ l.Adds (ssaName r site) v l' ∧
      l.ssaVariable r site t = (v, true, { l' with ssa := l.ssa.push ⟨r, site, v⟩ })) := by
  unfold ssaVariable
  cases hid : l.ssaId? r site with
  | some v => exact .inl ⟨v, rfl, rfl⟩
  | none =>
    have hadds := addSymbol_adds l
      { name := ssaName r site, type := t, description := some ("ssa value of " ++ r) }
    refine .inr ⟨_, _, rfl, hadds, ?_⟩
    simp only [hadds.ssa]

theorem ssaVariable_later (l : Locals) (r : String) (site : UInt64) (t : Option Ty) :
    l.Later (l.ssaVariable r site t).2.2 ∧
      (l.ssaVariable r site t).2.2.ssaId? r site = some (l.ssaVariable r site t).1 := by
  rcases l.ssaVariable_cases r site t with ⟨v, hid, h⟩ | ⟨v, l', hid, hadds, h⟩
  · rw [h]
    exact ⟨later_settleType l v t, hid⟩
  · rw [h]
    have hpush (r' : String) (site' : UInt64) :
        ({ l' with ssa := l.ssa.push ⟨r, site, v⟩ } : Locals).ssaId? r' site' =
          (l.ssaId? r' site').or (if r = r' ∧ site = site' then some v else none) := by
      simp only [ssaId?, Array.toList_push, List.find?_append]
      cases l.ssa.toList.find? fun d => d.register == r' && d.site == site' with
      | some d => rfl
      | none => by_cases hkey : r = r' ∧ site = site' <;> simp [hkey]
    refine ⟨⟨hadds.later.vars, hadds.later.slots, fun r' site' v' hv => ?_⟩, ?_⟩
    · rw [hpush, hv]
      rfl
    · simp [hpush, hid]

theorem WellNamed.ssaVariable (h : l.WellNamed) (r : String) (site : UInt64) (t : Option Ty) :
    (l.ssaVariable r site t).2.2.WellNamed := by
  rcases l.ssaVariable_cases r site t with ⟨v, -, heq⟩ | ⟨v, l', -, hadds, heq⟩
  · rw [heq]
    exact h.settleType v t
  · rw [heq]
    have hnext := hadds.wellNamed h
    refine ⟨hnext.symbols, hnext.listed, hnext.slots, fun d hd => ?_⟩
    rw [Array.toList_push, List.mem_append, List.mem_singleton] at hd
    rcases hd with hd | rfl
    · exact hnext.ssa d (hadds.ssa ▸ hd)
    · exact ⟨hadds.isNamed h, v, hadds.symbol, .inl rfl⟩

/-- A definition that is asked for is entered once. -/
theorem definedAt_ssaVariable (l : Locals) (r : String) (site : UInt64) (t : Option Ty)
    (at' : UInt64) :
    (l.ssaVariable r site t).2.2.definedAt at' =
      if site = at' ∧ r ∉ l.definedAt at' then l.definedAt at' ++ [r] else l.definedAt at' := by
  rcases l.ssaVariable_cases r site t with ⟨v, hid, h⟩ | ⟨v, l', hid, hadds, h⟩
  · have hmem : r ∈ l.definedAt site := ssaId?_isSome_iff.mp (by rw [hid]; rfl)
    rw [h, if_neg]
    · rfl
    · rintro ⟨rfl, hnew⟩
      exact hnew hmem
  · have hnew : r ∉ l.definedAt site := fun hmem => by
      have := ssaId?_isSome_iff.mpr hmem
      rw [hid] at this
      cases this
    rw [h]
    by_cases hsite : site = at'
    · subst hsite
      rw [if_pos ⟨rfl, hnew⟩]
      simp [definedAt]
    · simp [definedAt, hsite]

/-! ### Temporaries -/

/-- Of the numbers that follow, not all can be taken. -/
theorem exists_free (l : Locals) (n : Nat) :
    ∃ m, n < m ∧ m ≤ n + l.symbols.size + 1 ∧ temporaryName m ∉ l.symbols := by
  by_contra! hall
  let taken := (List.range' (n + 1) (l.symbols.size + 1)).map temporaryName
  have hnodup : taken.Nodup :=
    (List.nodup_range' ..).map fun _ _ h => temporaryName_inj h
  have hsubset : taken ⊆ l.symbols.keys := by
    intro name hname
    obtain ⟨m, hm, rfl⟩ := List.mem_map.mp hname
    rw [List.mem_range'_1] at hm
    exact Std.TreeMap.mem_keys.mpr (hall m (by omega) (by omega))
  have hlength := (List.subperm_of_subset hnodup hsubset).length_le
  simp only [taken, List.length_map, List.length_range', Std.TreeMap.length_keys] at hlength
  omega

/-- The number that is found is the first one that is not taken. -/
theorem freeTemporary_first (l : Locals) {limit n m : Nat} (hlt : n < m) (hle : m ≤ n + limit + 1)
    (hfree : temporaryName m ∉ l.symbols) :
    n < l.freeTemporary limit n ∧ temporaryName (l.freeTemporary limit n) ∉ l.symbols ∧
      ∀ k, n < k → k < l.freeTemporary limit n → temporaryName k ∈ l.symbols := by
  induction limit generalizing n with
  | zero =>
    obtain rfl : m = n + 1 := by omega
    exact ⟨Nat.lt_succ_self n, hfree, fun k _ _ => by simp only [freeTemporary] at *; omega⟩
  | succ limit ih =>
    unfold freeTemporary
    split
    next htaken =>
      have htaken : temporaryName (n + 1) ∈ l.symbols := Std.TreeMap.contains_iff_mem.mp htaken
      have hne : m ≠ n + 1 := by
        rintro rfl
        exact hfree htaken
      obtain ⟨hgt, hfound, hbefore⟩ := ih (n := n + 1) (by omega) (by omega)
      refine ⟨by omega, hfound, fun k hk hk' => ?_⟩
      by_cases hfirst : k = n + 1
      · rw [hfirst]
        exact htaken
      · exact hbefore k (by omega) hk'
    next hnew =>
      refine ⟨Nat.lt_succ_self n, ?_, fun k _ _ => by omega⟩
      rwa [Std.TreeMap.contains_iff_mem] at hnew

/-- A fresh temporary has the first name of its kind that is not taken. -/
theorem freshTemporary_name (l : Locals) (t : Option Ty) :
    ∃ n, l.lastTemporary < n ∧ temporaryName n ∉ l.symbols ∧
      (∀ k, l.lastTemporary < k → k < n → temporaryName k ∈ l.symbols) ∧
      l.freshTemporary t = { l with lastTemporary := n }.insert
        { name := temporaryName n, type := t, description := some "temporary" } := by
  obtain ⟨m, hlt, hle, hfree⟩ := l.exists_free l.lastTemporary
  obtain ⟨hgt, hfound, hbefore⟩ := l.freeTemporary_first hlt hle hfree
  exact ⟨_, hgt, hfound, hbefore, rfl⟩

theorem freshTemporary_later (l : Locals) (t : Option Ty) : l.Later (l.freshTemporary t).2 := by
  obtain ⟨n, -, -, -, h⟩ := l.freshTemporary_name t
  rw [h]
  have hlater := later_insert { l with lastTemporary := n }
    { name := temporaryName n, type := t, description := some "temporary" }
  exact ⟨hlater.vars, hlater.slots, hlater.ssa⟩

theorem WellNamed.freshTemporary (h : l.WellNamed) (t : Option Ty) :
    (l.freshTemporary t).2.WellNamed := by
  obtain ⟨n, -, hfree, -, heq⟩ := l.freshTemporary_name t
  rw [heq]
  have hstart : ({ l with lastTemporary := n } : Locals).WellNamed :=
    ⟨h.symbols, h.listed, h.slots, h.ssa⟩
  exact hstart.insert _ l.formals (fun _ => id) (.inl hfree)

/-! ### Parameters and registers -/

theorem addFormal_later (l : Locals) (name : String) (t : Ty) (location : ParameterLocation) :
    l.Later (l.addFormal name t location).2 := by
  have hlater := later_insert l { name, type := some t, parameter := some l.formals.size }
  cases location <;> exact ⟨hlater.vars, hlater.slots, hlater.ssa⟩

theorem WellNamed.addFormal (h : l.WellNamed) (name : String) (t : Ty)
    (location : ParameterLocation) : (l.addFormal name t location).2.WellNamed := by
  have hinsert := h.insert { name, type := some t, parameter := some l.formals.size }
    (l.formals.push l.vars.size) (by simp +contextual) (.inr (by simp))
  cases location <;> exact ⟨hinsert.symbols, hinsert.listed, hinsert.slots, hinsert.ssa⟩

theorem register_adds (l : Locals) (name : String) :
    l.Later (l.register name).2 ∧ (l.WellNamed → (l.register name).2.WellNamed) ∧
      (l.register name).2.ssa = l.ssa := by
  unfold register
  split
  next => exact ⟨.refl l, id, rfl⟩
  next =>
    have hadds := addSymbol_adds l { name, description := some "register" }
    refine ⟨⟨hadds.later.vars, hadds.later.slots, hadds.later.ssa⟩, ?_, hadds.ssa⟩
    intro h
    have hnext := hadds.wellNamed h
    exact ⟨hnext.symbols, hnext.listed, hnext.slots, hnext.ssa⟩

theorem Later.get_name (h : l.Later l') {v : VarId} (hv : v < l.vars.size) :
    v < l'.vars.size ∧ (l'.get v).name = (l.get v).name := by
  have hnamed : l.IsNamed v (l.get v).name := by
    refine ⟨l.vars[v], Array.getElem?_eq_getElem hv, ?_⟩
    simp [Locals.get, hv]
  have hlater := hnamed.later h
  obtain ⟨s, hs, -⟩ := hlater
  exact ⟨(Array.getElem?_eq_some_iff.mp hs).1, (hnamed.later h).get⟩

end Locals

/-! ### Calls -/

/-- A call that asks for a local variable. -/
inductive LocalCall
  | symbol (s : Symbol)
  | formal (name : String) (t : Ty) (location : ParameterLocation)
  | register (name : String)
  | flag (name : String)
  | slot (offset : Int64) (t : Option Ty)
  | ssa (register : String) (site : UInt64) (t : Option Ty)
  | fresh (t : Option Ty)
  | temporary (name : String) (t : Option Ty)

/-- The register that a call asks for the definition of at a site. -/
def LocalCall.definition? (site : UInt64) : LocalCall → Option String
  | .ssa r site' _ => if site' = site then some r else none
  | _ => none

theorem LocalCall.mem_definitions {r : String} {site : UInt64} {calls : List LocalCall} :
    r ∈ calls.filterMap (definition? site) ↔ ∃ t, ssa r site t ∈ calls := by
  rw [List.mem_filterMap]
  constructor
  · rintro ⟨call, hcall, hr⟩
    cases call <;> simp [definition?] at hr
    obtain ⟨rfl, rfl⟩ := hr
    exact ⟨_, hcall⟩
  · rintro ⟨t, hcall⟩
    exact ⟨_, hcall, by simp [definition?]⟩

namespace Session

def after (here : Site) (s : Session) : LocalCall → Session
  | .symbol v => { s with locals := (s.locals.addSymbol v).2 }
  | .formal name t location => { s with locals := (s.locals.addFormal name t location).2 }
  | .register name => { s with locals := (s.locals.register name).2 }
  | .flag name => { s with locals := (s.locals.flag name).2 }
  | .slot offset t => { s with locals := (s.locals.slot offset t).2 }
  | .ssa r site t => { s with locals := (s.locals.ssaVariable r site t).2.2 }
  | .fresh t => { s with locals := (s.locals.freshTemporary t).2 }
  | .temporary name t => (LiftM.temporaryOfType name t here s).2

def afterAll (here : Site) (s : Session) (calls : List LocalCall) : Session :=
  calls.foldl (after here) s

/-- The local symbols are called as the tables say, and the variables of different temporaries have
different names. -/
structure WellNamed (s : Session) : Prop where
  locals : s.locals.WellNamed
  temporaries : ∀ (x : String) (v : VarId), s.temporaries[x]? = some v → v < s.locals.vars.size
  apart : ∀ (x y : String) (v w : VarId), s.temporaries[x]? = some v → s.temporaries[y]? = some w →
    (s.locals.get v).name = (s.locals.get w).name → x = y

variable {s s' : Session} (here : Site)

theorem temporaryOfType_cases (name : String) (t : Option Ty) (s : Session) :
    (∃ v, s.temporaries[name]? = some v ∧
      LiftM.temporaryOfType name t here s = (s.locals.get v, s)) ∨
    (s.temporaries[name]? = none ∧
      LiftM.temporaryOfType name t here s =
        ((s.locals.freshTemporary t).2.get (s.locals.freshTemporary t).1,
          { s with
            locals := (s.locals.freshTemporary t).2
            temporaries := s.temporaries.insert name (s.locals.freshTemporary t).1 })) := by
  have hrun {α : Type} (f : Session → α × Session) : (modifyGet f : LiftM α) here s = f s := rfl
  rw [LiftM.temporaryOfType, hrun]
  cases s.temporaries[name]? with
  | some v => exact .inl ⟨v, rfl, rfl⟩
  | none => exact .inr ⟨rfl, rfl⟩

/-- **The step.** A call keeps what is there. -/
theorem later_after (s : Session) (call : LocalCall) :
    s.locals.Later (s.after here call).locals ∧
      ∀ (x : String) (v : VarId), s.temporaries[x]? = some v →
        (s.after here call).temporaries[x]? = some v := by
  cases call with
  | symbol v => exact ⟨(s.locals.addSymbol_adds v).later, fun _ _ => id⟩
  | formal name t location => exact ⟨s.locals.addFormal_later name t location, fun _ _ => id⟩
  | register name => exact ⟨(s.locals.register_adds name).1, fun _ _ => id⟩
  | flag name => exact ⟨(s.locals.addSymbol_adds _).later, fun _ _ => id⟩
  | slot offset t => exact ⟨(s.locals.slot_later offset t).1, fun _ _ => id⟩
  | ssa r site t => exact ⟨(s.locals.ssaVariable_later r site t).1, fun _ _ => id⟩
  | fresh t => exact ⟨s.locals.freshTemporary_later t, fun _ _ => id⟩
  | temporary name t =>
    rcases temporaryOfType_cases here name t s with ⟨v, -, h⟩ | ⟨hnone, h⟩
    · rw [after, h]
      exact ⟨.refl _, fun _ _ => id⟩
    · rw [after, h]
      refine ⟨s.locals.freshTemporary_later t, fun x v hv => ?_⟩
      have hne : ¬name = x := by
        rintro rfl
        rw [hnone] at hv
        cases hv
      simpa [Std.TreeMap.getElem?_insert, hne] using hv

/-- **The run.** So do any calls. -/
theorem later_afterAll (s : Session) (calls : List LocalCall) :
    s.locals.Later (s.afterAll here calls).locals ∧
      ∀ (x : String) (v : VarId), s.temporaries[x]? = some v →
        (s.afterAll here calls).temporaries[x]? = some v := by
  induction calls generalizing s with
  | nil => exact ⟨.refl _, fun _ _ => id⟩
  | cons call calls ih =>
    obtain ⟨hstep, htemporaries⟩ := later_after here s call
    obtain ⟨hrun, hrest⟩ := ih (s.after here call)
    exact ⟨hstep.trans hrun, fun x v hv => hrest x v (htemporaries x v hv)⟩

/-- Calls that leave the temporaries alone keep them apart. -/
theorem WellNamed.of_locals {l : Locals} (h : s.WellNamed) (hl : l.WellNamed)
    (hlater : s.locals.Later l) : ({ s with locals := l } : Session).WellNamed where
  locals := hl
  temporaries x v hv := (hlater.get_name (h.temporaries x v hv)).1
  apart x y v w hv hw hname := by
    have hnames : (l.get v).name = (l.get w).name := hname
    rw [(hlater.get_name (h.temporaries x v hv)).2, (hlater.get_name (h.temporaries y w hw)).2]
      at hnames
    exact h.apart x y v w hv hw hnames

/-- A fresh temporary has a name that no variable has. -/
theorem freshTemporary_ne {l : Locals} (h : l.WellNamed) (t : Option Ty) {v : VarId}
    (hv : v < l.vars.size) :
    (l.get v).name ≠ ((l.freshTemporary t).2.get (l.freshTemporary t).1).name := by
  obtain ⟨n, -, hfree, -, heq⟩ := l.freshTemporary_name t
  have hnew : ((l.freshTemporary t).2.get (l.freshTemporary t).1).name = temporaryName n := by
    rw [heq]
    exact (Locals.isNamed_insert _ _).get
  have hlisted := h.listed v (l.get v) (by simp [Locals.get, hv])
  rw [hnew]
  intro hname
  exact hfree (hname ▸ hlisted)

theorem WellNamed.after (h : s.WellNamed) (call : LocalCall) : (s.after here call).WellNamed := by
  have hlater := (later_after here s call).1
  cases call with
  | symbol v => exact h.of_locals ((s.locals.addSymbol_adds v).wellNamed h.locals) hlater
  | formal name t location => exact h.of_locals (h.locals.addFormal name t location) hlater
  | register name => exact h.of_locals ((s.locals.register_adds name).2.1 h.locals) hlater
  | flag name => exact h.of_locals ((s.locals.addSymbol_adds _).wellNamed h.locals) hlater
  | slot offset t => exact h.of_locals (h.locals.slot offset t) hlater
  | ssa r site t => exact h.of_locals (h.locals.ssaVariable r site t) hlater
  | fresh t => exact h.of_locals (h.locals.freshTemporary t) hlater
  | temporary name t =>
    rcases temporaryOfType_cases here name t s with ⟨v, -, heq⟩ | ⟨-, heq⟩
    · rw [Session.after, heq]
      exact h
    · rw [Session.after, heq] at hlater ⊢
      have hkept := h.of_locals (h.locals.freshTemporary t) hlater
      have hnew : (s.locals.freshTemporary t).1 < (s.locals.freshTemporary t).2.vars.size := by
        simp [Locals.freshTemporary, Locals.insert]
      -- the new variable has a name of its own, whichever temporary it is compared with
      have hown (x : String) (v : VarId) (hv : s.temporaries[x]? = some v) :
          ((s.locals.freshTemporary t).2.get v).name ≠
            ((s.locals.freshTemporary t).2.get (s.locals.freshTemporary t).1).name := by
        rw [(hlater.get_name (h.temporaries x v hv)).2]
        exact freshTemporary_ne h.locals t (h.temporaries x v hv)
      refine ⟨hkept.locals, fun x v hv => ?_, fun x y v w hv hw hname => ?_⟩
      · simp only [Std.TreeMap.getElem?_insert, Std.LawfulEqOrd.compare_eq_iff_eq] at hv
        split at hv
        · rw [← Option.some.inj hv]
          exact hnew
        · exact hkept.temporaries x v hv
      · simp only [Std.TreeMap.getElem?_insert, Std.LawfulEqOrd.compare_eq_iff_eq] at hv hw
        split at hv
        next hx =>
          split at hw
          next hy => exact hx.symm.trans hy
          next =>
            rw [← Option.some.inj hv] at hname
            exact absurd hname.symm (hown y w hw)
        next =>
          split at hw
          next =>
            rw [← Option.some.inj hw] at hname
            exact absurd hname (hown x v hv)
          next => exact hkept.apart x y v w hv hw hname

theorem WellNamed.afterAll (h : s.WellNamed) (calls : List LocalCall) :
    (s.afterAll here calls).WellNamed := by
  induction calls generalizing s with
  | nil => exact h
  | cons call calls ih => exact ih (h.after here call)

theorem wellNamed_start (w : Workspace) (function : String) : (start w function).WellNamed where
  locals := ⟨by simp [start], by simp [start], by simp [start], by simp [start]⟩
  temporaries x v hv := by simp [start] at hv
  apart x y v w hv hw _ := by simp [start] at hv

theorem definedAt_after (s : Session) (call : LocalCall) (site : UInt64) :
    (s.after here call).locals.definedAt site =
      match call.definition? site with
      | some r =>
        if r ∈ s.locals.definedAt site then s.locals.definedAt site
        else s.locals.definedAt site ++ [r]
      | none => s.locals.definedAt site := by
  have hssa (l : Locals) (h : l.ssa = s.locals.ssa) :
      l.definedAt site = s.locals.definedAt site := by
    simp only [Locals.definedAt, h]
  cases call with
  | symbol v => exact hssa _ (s.locals.addSymbol_adds v).ssa
  | formal name t location => exact hssa _ (by cases location <;> rfl)
  | register name => exact hssa _ (s.locals.register_adds name).2.2
  | flag name => exact hssa _ (s.locals.addSymbol_adds _).ssa
  | slot offset t => exact hssa _ (s.locals.slot_later offset t).2.2
  | fresh t => exact hssa _ rfl
  | temporary name t =>
    rcases temporaryOfType_cases here name t s with ⟨v, -, h⟩ | ⟨-, h⟩
    · rw [after, h]
      rfl
    · rw [after, h]
      exact hssa _ rfl
  | ssa r site' t =>
    refine (s.locals.definedAt_ssaVariable r site' t site).trans ?_
    by_cases hsite : site' = site
    · by_cases hr : r ∈ s.locals.definedAt site <;> simp [LocalCall.definition?, hsite, hr]
    · simp [LocalCall.definition?, hsite]

/-- The definitions at a site are those that were asked for, in the order of the first requests. -/
theorem definedAt_afterAll (w : Workspace) (function : String) (calls : List LocalCall)
    (site : UInt64) :
    ((start w function).afterAll here calls).locals.definedAt site =
      (calls.filterMap (LocalCall.definition? site)).eraseDups := by
  induction calls using List.reverseRecOn with
  | nil => rfl
  | append_singleton calls call ih =>
    have hlast : (start w function).afterAll here (calls ++ [call]) =
        ((start w function).afterAll here calls).after here call := by
      simp [afterAll]
    rw [hlast, definedAt_after, ih, List.filterMap_append]
    cases hcall : call.definition? site with
    | none => simp [hcall]
    | some r => simp [hcall, eraseDups_concat]

/-! ### What holds after any calls -/

/-- The symbols at a site stand for the definitions there, one by one: each is the variable of its
definition, or a parameter that took the name. -/
theorem ssaAt_definedAt {l : Locals} (h : l.WellNamed) (site : UInt64) :
    List.Forall₂ (fun r e => e.name = ssaName r site ∧
      (l.ssa? r site = some e ∨ e ∈ l.parameters)) (l.definedAt site) (l.ssaAt site) := by
  have hentry (d : SsaVariable) (hd : d ∈ l.ssa.toList.filter (·.site == site)) :
      ∃ e, l.symbol? (ssaName d.register site) = some e ∧ e.name = ssaName d.register site ∧
        (l.ssa? d.register site = some e ∨ e ∈ l.parameters) := by
    have hasked : (l.ssaId? d.register site).isSome :=
      Locals.ssaId?_isSome_iff.mpr (List.mem_map.mpr ⟨d, hd, rfl⟩)
    obtain ⟨v, hv⟩ := Option.isSome_iff_exists.mp hasked
    obtain ⟨-, u, hu, hvar⟩ := h.ssa _ (Locals.mem_of_ssaId? hv)
    refine ⟨l.get u, by simp [Locals.symbol?, hu], (h.symbols _ u hu).get, ?_⟩
    rcases hvar with rfl | hformal
    · exact .inl (by simp [Locals.ssa?, hv])
    · exact .inr (List.mem_map.mpr ⟨u, hformal, rfl⟩)
  rw [Locals.definedAt, Locals.ssaAt]
  generalize l.ssa.toList.filter (·.site == site) = ds at hentry
  induction ds with
  | nil => exact .nil
  | cons d ds ih =>
    obtain ⟨e, hsymbol, hnamed⟩ := hentry d List.mem_cons_self
    simp only [List.map_cons, List.filterMap_cons, hsymbol]
    exact .cons hnamed (ih fun d hd => hentry d (List.mem_cons_of_mem _ hd))

theorem ssaVariable_name {l : Locals} (h : l.WellNamed) (r : String) (site : UInt64)
    (t : Option Ty) :
    ((l.ssaVariable r site t).2.2.get (l.ssaVariable r site t).1).name = ssaName r site :=
  ((h.ssaVariable r site t).ssa _ (Locals.mem_of_ssaId? (l.ssaVariable_later r site t).2)).1.get

theorem slot_name {l : Locals} (h : l.WellNamed) (offset : Int64) (t : Option Ty) :
    ((l.slot offset t).2.get (l.slot offset t).1).name = slotName offset :=
  ((h.slot offset t).slots offset _ (l.slot_later offset t).2.1).get

/-- A definition that was asked for is found, and the same variable is given again. -/
theorem ssaVariable_of_ssaId? {l : Locals} {r : String} {site : UInt64} {v : VarId}
    (h : l.ssaId? r site = some v) (t : Option Ty) : (l.ssaVariable r site t).1 = v := by
  simp only [Locals.ssaVariable, h]

theorem slot_of_slots {l : Locals} {offset : Int64} {v : VarId} (h : l.slots[offset]? = some v)
    (t : Option Ty) : (l.slot offset t).1 = v := by
  simp only [Locals.slot, h]

theorem ssaVariable_new_iff {l : Locals} (r : String) (site : UInt64) (t : Option Ty) :
    (l.ssaVariable r site t).2.1 = true ↔ r ∉ l.definedAt site := by
  rw [← Locals.ssaId?_isSome_iff]
  rcases l.ssaVariable_cases r site t with ⟨v, hid, h⟩ | ⟨v, l', hid, -, h⟩ <;> simp [h, hid]

/-- The variable of a temporary that was asked for is found under its name. -/
theorem temporaryOfType_found (x : String) (t : Option Ty) (s : Session) :
    ∃ v : VarId, (s.after here (.temporary x t)).temporaries[x]? = some v ∧
      (LiftM.temporaryOfType x t here s).1 = (s.after here (.temporary x t)).locals.get v := by
  rcases temporaryOfType_cases here x t s with ⟨v, hv, h⟩ | ⟨-, h⟩
  · exact ⟨v, by rw [after, h, hv], by rw [after, h]⟩
  · refine ⟨(s.locals.freshTemporary t).1, ?_, by rw [after, h]⟩
    rw [after, h]
    exact Std.TreeMap.getElem?_insert_self

theorem temporaryOfType_again {x : String} {v : VarId} (h : s.temporaries[x]? = some v)
    (t : Option Ty) : LiftM.temporaryOfType x t here s = (s.locals.get v, s) := by
  rcases temporaryOfType_cases here x t s with ⟨u, hu, heq⟩ | ⟨hnone, -⟩
  · rw [heq, Option.some.inj (hu.symm.trans h)]
  · rw [hnone] at h
    cases h

theorem temporaryOfType_name_ne (h : s.WellNamed) (x : String) (t : Option Ty)
    (later : List LocalCall) (y : String) (t' : Option Ty) (hne : x ≠ y) :
    (LiftM.temporaryOfType x t here s).1.name ≠
      (LiftM.temporaryOfType y t' here (s.afterAll here (.temporary x t :: later))).1.name := by
  obtain ⟨v, hv, hx⟩ := temporaryOfType_found here x t s
  obtain ⟨u, hu, hy⟩ := temporaryOfType_found here y t' (s.afterAll here (.temporary x t :: later))
  have hfirst := h.after here (.temporary x t)
  -- the two variables are compared after the second one was asked for
  obtain ⟨hlater, hkept⟩ :=
    later_afterAll here (s.after here (.temporary x t)) (later ++ [.temporary y t'])
  have hlast := hfirst.afterAll here (later ++ [.temporary y t'])
  have hsnoc : (s.after here (.temporary x t)).afterAll here (later ++ [.temporary y t']) =
      (s.afterAll here (.temporary x t :: later)).after here (.temporary y t') := by
    simp [afterAll]
  rw [hsnoc] at hlater hkept hlast
  rw [hx, hy, ← (hlater.get_name (hfirst.temporaries x v hv)).2]
  exact fun hname => hne (hlast.apart x y v u (hkept x v hv) hu hname)

/-- The names of temporaries that are taken are those of variables. -/
theorem mem_symbols_iff {l : Locals} (h : l.WellNamed) (name : String) :
    name ∈ l.symbols ↔ ∃ v < l.vars.size, (l.get v).name = name := by
  constructor
  · intro hmem
    obtain ⟨v, hv⟩ := Option.isSome_iff_exists.mp (Std.TreeMap.mem_iff_isSome_getElem?.mp hmem)
    obtain ⟨s, hs, hname⟩ := h.symbols name v hv
    exact ⟨v, (Array.getElem?_eq_some_iff.mp hs).1, (h.symbols name v hv).get⟩
  · rintro ⟨v, hv, rfl⟩
    exact h.listed v (l.get v) (by simp [Locals.get, hv])

/-- What local symbols do, after these calls. -/
structure KeptApart (calls : List LocalCall) (s : Session) : Prop where
  /-- A definition is new if nobody asked for it. -/
  ssa_new : ∀ r site t,
    (s.locals.ssaVariable r site t).2.1 = true ↔ ∀ t', LocalCall.ssa r site t' ∉ calls
  /-- Whoever asks for it again gets the same variable, -/
  ssa_same : ∀ r site t later t',
    ((s.afterAll here (.ssa r site t :: later)).locals.ssaVariable r site t').1 =
      (s.locals.ssaVariable r site t).1
  /-- and whoever asks for another one gets another name. -/
  ssa_apart : ∀ r site t later r' site' t', (r, site) ≠ (r', site') →
    let asked := s.locals.ssaVariable r site t
    let asked' := (s.afterAll here (.ssa r site t :: later)).locals.ssaVariable r' site' t'
    (asked.2.2.get asked.1).name ≠ (asked'.2.2.get asked'.1).name
  /-- The definitions at a site are listed in the order in which they were first asked for. -/
  ssa_at_site : ∀ site,
    List.Forall₂ (fun r e => e.name = ssaName r site ∧
        (s.locals.ssa? r site = some e ∨ e ∈ s.locals.parameters))
      (calls.filterMap (LocalCall.definition? site)).eraseDups (s.locals.ssaAt site)
  slot_same : ∀ offset t later t',
    ((s.afterAll here (.slot offset t :: later)).locals.slot offset t').1 =
      (s.locals.slot offset t).1
  slot_apart : ∀ offset t later offset' t', offset ≠ offset' →
    let asked := s.locals.slot offset t
    let asked' := (s.afterAll here (.slot offset t :: later)).locals.slot offset' t'
    (asked.2.get asked.1).name ≠ (asked'.2.get asked'.1).name
  /-- A temporary of the facts has one variable, whatever was asked for in between, -/
  temporary_same : ∀ x t later t', ∃ v : VarId,
    let asked := LiftM.temporaryOfType x t here s
    let s' := s.afterAll here (.temporary x t :: later)
    asked.1 = asked.2.locals.get v ∧ LiftM.temporaryOfType x t' here s' = (s'.locals.get v, s')
  /-- and different temporaries have different ones. -/
  temporary_apart : ∀ x t later y t', x ≠ y →
    (LiftM.temporaryOfType x t here s).1.name ≠
      (LiftM.temporaryOfType y t' here (s.afterAll here (.temporary x t :: later))).1.name
  /-- The name of a fresh temporary is the first of its kind that no variable has or had. -/
  fresh : ∀ t, ∃ n, s.locals.lastTemporary < n ∧
    ((s.locals.freshTemporary t).2.get (s.locals.freshTemporary t).1).name = temporaryName n ∧
    (∀ v < s.locals.vars.size, (s.locals.get v).name ≠ temporaryName n) ∧
    ∀ k, s.locals.lastTemporary < k → k < n →
      ∃ v < s.locals.vars.size, (s.locals.get v).name = temporaryName k
  /-- A variable that has a type stays as it is. -/
  typed : ∀ (v : VarId) (symbol : Symbol), s.locals.vars[v]? = some symbol → symbol.type.isSome →
    ∀ later, (s.afterAll here later).locals.vars[v]? = some symbol

/-- Local variables are made once and kept apart, after any calls for any function. -/
theorem localCalls_kept_apart (w : Workspace) (function : String) (calls : List LocalCall) :
    KeptApart here calls ((start w function).afterAll here calls) := by
  have h : ((start w function).afterAll here calls).WellNamed :=
    (wellNamed_start w function).afterAll here calls
  have hdefined := definedAt_afterAll here w function calls
  generalize (start w function).afterAll here calls = s at h hdefined
  constructor
  case ssa_new =>
    intro r site t
    rw [ssaVariable_new_iff, hdefined, List.mem_eraseDups, LocalCall.mem_definitions, not_exists]
  case ssa_same =>
    intro r site t later t'
    refine ssaVariable_of_ssaId? ?_ t'
    exact (later_afterAll here (s.after here (.ssa r site t)) later).1.ssa r site _
      (s.locals.ssaVariable_later r site t).2
  case ssa_apart =>
    intro r site t later r' site' t' hne asked asked'
    rw [ssaVariable_name h.locals, ssaVariable_name (h.afterAll here _).locals]
    intro hname
    obtain ⟨hr, hsite⟩ := ssaName_inj hname
    exact hne (by rw [hr, hsite])
  case ssa_at_site =>
    intro site
    rw [← hdefined]
    exact ssaAt_definedAt h.locals site
  case slot_same =>
    intro offset t later t'
    refine slot_of_slots ?_ t'
    exact (later_afterAll here (s.after here (.slot offset t)) later).1.slots offset _
      (s.locals.slot_later offset t).2.1
  case slot_apart =>
    intro offset t later offset' t' hne asked asked'
    rw [slot_name h.locals, slot_name (h.afterAll here _).locals]
    exact fun hname => hne (slotName_inj hname)
  case temporary_same =>
    intro x t later t'
    obtain ⟨v, hv, hx⟩ := temporaryOfType_found here x t s
    have hkept := (later_afterAll here (s.after here (.temporary x t)) later).2 x v hv
    exact ⟨v, hx, temporaryOfType_again here hkept t'⟩
  case temporary_apart => exact temporaryOfType_name_ne here h
  case fresh =>
    intro t
    obtain ⟨n, hlast, hfree, hbefore, heq⟩ := s.locals.freshTemporary_name t
    refine ⟨n, hlast, ?_, fun v hv hname => ?_, fun k hk hkn => ?_⟩
    · rw [heq]
      exact (Locals.isNamed_insert _ _).get
    · exact hfree ((mem_symbols_iff h.locals _).mpr ⟨v, hv, hname⟩)
    · exact (mem_symbols_iff h.locals _).mp (hbefore k hk hkn)
  case typed =>
    intro v symbol hv htype later
    obtain ⟨symbol', hv', -, hsame⟩ := (later_afterAll here s later).1.vars v symbol hv
    rw [hv', hsame htype]

end Session

end FactLift
