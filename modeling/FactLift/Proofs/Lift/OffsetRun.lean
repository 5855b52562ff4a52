import FactLift.Proofs.Lift.ConstantOffset
import FactLift.Proofs.Lift.Endings
import FactLift.Proofs.Symbols.Paths

/-! Offsets into types come to an end.

`OffsetRun site o host s outcome` says by rules how the lift of an offset ends, one link of its chain
after the other, with sizes and paths that are derived without a bound: with an offset and a session,
or with a fault, where a path has no quotient or a value inside of the offset meets a fault. In an
acyclic table every offset has exactly one outcome, for memory of whatever type, and it is that of the
lift (`liftMemoryOffset_run`, `eq_ending_of_run`). -/

namespace FactLift

open C

namespace LiftM

variable {site : Site} {s : Session} {o : Sym.Offset} {host : Option Ty}

/-- The type of the elements of memory of a type, as far as it is known. -/
def elementType? (g : Globals) (host : Option Ty) : Option Ty :=
  (host.map g.resolve).bind Ty.element?

theorem elementType?_congr {g g' : Globals} (h : g.SameTypes g') (host : Option Ty) :
    elementType? g host = elementType? g' host := by
  rw [elementType?, elementType?, funext h.resolve]

/-- What ends with an offset ends with another one in its place. -/
def wrapped (f : Offset → Offset) (outcome : Except Fault (Offset × Session)) :
    Except Fault (Offset × Session) :=
  Prod.map f id <$> outcome

/-- How lifting an offset from a session ends. -/
inductive OffsetRun (site : Site) :
    Sym.Offset → Option Ty → Session → Except Fault (Offset × Session) → Prop
  | none {host : Option Ty} {s : Session} : OffsetRun site .none host s (.ok (.none, s))
  | lands {v : Int64} {sub : Sym.Offset} {host landing : Ty} {s : Session} {path : Path}
      {outcome : Except Fault (Offset × Session)}
      (hpath : s.globals.Follows (s.globals.resolve host) v (.ok path))
      (hlanding : path.landing = .ok landing)
      (hsub : OffsetRun site sub (some landing) s outcome) :
      OffsetRun site (.const v sub) (some host) s (wrapped path.wrap outcome)
  | stuck {v : Int64} {sub : Sym.Offset} {host : Ty} {s s' : Session} {path : Path} {o : Offset}
      {reason : String} (hpath : s.globals.Follows (s.globals.resolve host) v (.ok path))
      (hlanding : path.landing = .error reason)
      (hgap : unresolvedOffset reason site s = (o, s')) :
      OffsetRun site (.const v sub) (some host) s (.ok (path.wrap o, s'))
  | lost {v : Int64} {sub : Sym.Offset} {host : Ty} {s : Session} {fault : Fault}
      (hpath : s.globals.Follows (s.globals.resolve host) v (.error fault)) :
      OffsetRun site (.const v sub) (some host) s (.error fault)
  | zero {sub : Sym.Offset} {s : Session} {outcome : Except Fault (Offset × Session)}
      (hsub : OffsetRun site sub none s outcome) : OffsetRun site (.const 0 sub) none s outcome
  | untyped {v : Int64} {sub : Sym.Offset} {s : Session} {result : Offset × Session} (hv : v ≠ 0)
      (hgap : unresolvedOffset s!"constant offset {v.toInt} into untyped memory" site s = result) :
      OffsetRun site (.const v sub) none s (.ok result)
  | field {name : String} {key : Nat} {sub : Sym.Offset} {host : Option Ty} {s : Session}
      {outcome : Except Fault (Offset × Session)}
      (hsub : OffsetRun site sub (fieldType? s.globals name key) s outcome) :
      OffsetRun site (.field name key sub) host s (wrapped (.field name key) outcome)
  | index {i : Sym.Expr} {sub : Sym.Offset} {host : Option Ty} {s s' : Session} {e : Expr}
      {outcome : Except Fault (Offset × Session)} (hi : ending (liftExpr i) site s = .ok (e, s'))
      (hsub : OffsetRun site sub (elementType? s.globals host) s' outcome) :
      OffsetRun site (.index i sub) host s (wrapped (.index e) outcome)
  | indexLost {i : Sym.Expr} {sub : Sym.Offset} {host : Option Ty} {s : Session} {fault : Fault}
      (hi : ending (liftExpr i) site s = .error fault) :
      OffsetRun site (.index i sub) host s (.error fault)
  | misscaled {v : Sym.Variable} {elementSize size : Nat} {sub : Sym.Offset} {host : Option Ty}
      {element : Ty} {s : Session} {result : Offset × Session}
      (helement : elementType? s.globals host = some element)
      (hsize : s.globals.Measures element (some size)) (hne : size ≠ elementSize)
      (hgap : unresolvedOffset
        s!"index scaled by {elementSize} into elements of size {size}" site s = result) :
      OffsetRun site (.indexVar v elementSize sub) host s (.ok result)
  | indexVar {v : Sym.Variable} {elementSize : Nat} {sub : Sym.Offset} {host : Option Ty}
      {s s' : Session} {e : Expr} {outcome : Except Fault (Offset × Session)}
      (hsize : ∀ element, elementType? s.globals host = some element →
        ∃ size, s.globals.Measures element size ∧ (size = none ∨ size = some elementSize))
      (hv : ending (liftVariable v.settle) site s = .ok (e, s'))
      (hsub : OffsetRun site sub (elementType? s.globals host) s' outcome) :
      OffsetRun site (.indexVar v elementSize sub) host s (wrapped (.index e) outcome)
  | indexVarLost {v : Sym.Variable} {elementSize : Nat} {sub : Sym.Offset} {host : Option Ty}
      {s : Session} {fault : Fault}
      (hsize : ∀ element, elementType? s.globals host = some element →
        ∃ size, s.globals.Measures element size ∧ (size = none ∨ size = some elementSize))
      (hv : ending (liftVariable v.settle) site s = .error fault) :
      OffsetRun site (.indexVar v elementSize sub) host s (.error fault)
  | unknown {host : Option Ty} {s : Session} {result : Offset × Session}
      (hgap : unresolvedOffset "unknown offset" site s = result) :
      OffsetRun site .unknown host s (.ok result)

/-! ### The links of a chain -/

theorem liftMemoryOffset_steps (o : Sym.Offset) (host : Option Ty) :
    Steps (liftMemoryOffset o host) :=
  liftOffset_steps o.settle host

theorem ending_gap (hs : s.fault = none) (reason : String) :
    ending (unresolvedOffset reason) site s = .ok (unresolvedOffset reason site s) :=
  ending_eq_ok.mpr ⟨rfl, hs⟩

theorem ending_globals {α : Type} (f : Globals → LiftM α) :
    ending (globals >>= f) site s = ending (f s.globals) site s := rfl

theorem ending_attempt {α : Type} (hs : s.fault = none) (x : Except Fault α) (fallback : α) :
    ending (attempt x fallback) site s = (·, s) <$> x := by
  cases x with
  | ok a => exact ending_eq_ok.mpr ⟨congrArg (Prod.mk a) s.stop_none, hs⟩
  | error fault =>
    refine ending_eq_error.mpr ?_
    show s.fault.or (some fault) = some fault
    rw [hs, Option.none_or]

theorem ending_measured (hacyclic : s.globals.Acyclic) (hs : s.fault = none) (t : Option Ty) :
    ending (measured t) site s = .ok (t.bind s.globals.size?, s) := by
  rw [measured, ending_globals, ending_attempt hs]
  cases t with
  | none => rfl
  | some t => rw [Option.elim_some, Globals.sizing_eq_ok hacyclic]; rfl

/-- Following bytes ends with a fault, or goes on from where they lead. -/
theorem ending_along (hs : s.fault = none) (host : Ty) (bytes : Int64) {rest : Ty → LiftM Offset}
    (hrest : ∀ t, Steps (rest t)) :
    ending (along host bytes rest) site s =
      s.globals.navigation host bytes >>= fun path =>
        match path.landing with
        | .ok landing => wrapped path.wrap (ending (rest landing) site s)
        | .error reason => .ok (Prod.map path.wrap id (unresolvedOffset reason site s)) := by
  rw [along]
  refine (ending_bind fun path => ?_).trans ?_
  · split
    · exact (hrest _).map _
    · exact (unresolvedOffset_steps _).map _
  rw [followed, ending_globals, ending_attempt hs]
  cases s.globals.navigation host bytes with
  | error fault => rfl
  | ok path =>
    show ending _ site s = _
    rw [ok_bind]
    cases path.landing with
    | ok landing => exact ending_map _
    | error reason =>
      dsimp only
      rw [ending_map, ending_gap hs]
      rfl

theorem ending_const (hs : s.fault = none) (v : Int64) (sub : Sym.Offset) (host : Ty) :
    ending (liftMemoryOffset (.const v sub) (some host)) site s =
      s.globals.navigation (s.globals.resolve host) v >>= fun path =>
        match path.landing with
        | .ok landing => wrapped path.wrap (ending (liftMemoryOffset sub (some landing)) site s)
        | .error reason => .ok (Prod.map path.wrap id (unresolvedOffset reason site s)) := by
  rw [liftMemoryOffset, Sym.Offset.settle, liftOffset, ending_globals]
  exact ending_along hs _ v fun t => liftOffset_steps sub.settle (some t)

theorem ending_field (name : String) (key : Nat) (sub : Sym.Offset) (host : Option Ty) :
    ending (liftMemoryOffset (.field name key sub) host) site s =
      wrapped (.field name key)
        (ending (liftMemoryOffset sub (fieldType? s.globals name key)) site s) := by
  rw [liftMemoryOffset, Sym.Offset.settle, liftOffset, ending_globals]
  exact ending_map _

/-- A value inside of an offset can make up symbols, but it defines no type. -/
theorem elementType?_after {α : Type} {x : LiftM α} (hx : Steps x) {result : α × Session}
    (h : ending x site s = .ok result) (host : Option Ty) :
    elementType? result.2.globals host = elementType? s.globals host := by
  obtain ⟨rfl, -⟩ := ending_eq_ok.mp h
  exact (elementType?_congr (hx.edits.sameTypes site s) host).symm

theorem acyclic_after {α : Type} {x : LiftM α} (hx : Steps x) {result : α × Session}
    (h : ending x site s = .ok result) (hacyclic : s.globals.Acyclic) :
    result.2.globals.Acyclic := by
  obtain ⟨rfl, -⟩ := ending_eq_ok.mp h
  exact hx.acyclic hacyclic

theorem ending_index (i : Sym.Expr) (sub : Sym.Offset) (host : Option Ty) :
    ending (liftMemoryOffset (.index i sub) host) site s =
      ending (liftExpr i) site s >>= fun result =>
        wrapped (.index result.1)
          (ending (liftMemoryOffset sub (elementType? s.globals host)) site result.2) := by
  rw [liftMemoryOffset, Sym.Offset.settle, liftOffset]
  refine (ending_bind (x := liftExpr i) fun e => Steps.globals.bind fun g =>
    (liftOffset_steps sub.settle _).map _).trans ?_
  cases hi : ending (liftExpr i) site s with
  | error fault => rfl
  | ok result =>
    rw [ok_bind, ok_bind, ← elementType?_after (liftExpr_steps i) hi, ending_globals]
    exact ending_map _

/-- An index that is scaled by another size than that of the elements is a gap. -/
theorem ending_indexVar (hacyclic : s.globals.Acyclic) (hs : s.fault = none) (v : Sym.Variable)
    (elementSize : Nat) (sub : Sym.Offset) (host : Option Ty) :
    ending (liftMemoryOffset (.indexVar v elementSize sub) host) site s =
      match ((elementType? s.globals host).bind s.globals.size?).filter (· ≠ elementSize) with
      | some size => .ok (unresolvedOffset
          s!"index scaled by {elementSize} into elements of size {size}" site s)
      | none => ending (liftVariable v.settle) site s >>= fun result =>
          wrapped (.index result.1)
            (ending (liftMemoryOffset sub (elementType? s.globals host)) site result.2) := by
  rw [liftMemoryOffset, Sym.Offset.settle, liftOffset, ending_globals]
  refine (ending_bind fun size => ?_).trans ?_
  · split
    · exact unresolvedOffset_steps _
    · exact (liftVariable_steps v.settle).bind fun e => (liftOffset_steps sub.settle _).map _
  rw [ending_measured hacyclic hs, ok_bind, elementType?]
  dsimp only
  cases (((host.map s.globals.resolve).bind Ty.element?).bind s.globals.size?).filter
    (· ≠ elementSize) with
  | some size => exact ending_gap hs _
  | none =>
    refine (ending_bind fun e => (liftOffset_steps sub.settle _).map _).trans ?_
    exact congrArg _ (funext fun result => ending_map _)

/-! ### Runs and lifts -/

/-- A size that no index is scaled by wrongly. -/
theorem measures_of_filter (hacyclic : s.globals.Acyclic) {elementSize : Nat}
    (h : ((elementType? s.globals host).bind s.globals.size?).filter (· ≠ elementSize) = none)
    (element : Ty) (helement : elementType? s.globals host = some element) :
    ∃ size, s.globals.Measures element size ∧ (size = none ∨ size = some elementSize) := by
  refine ⟨_, Globals.measures_size? hacyclic element, ?_⟩
  rw [helement, Option.bind_some] at h
  cases hsize : s.globals.size? element with
  | none => exact .inl rfl
  | some size =>
    rw [hsize] at h
    exact .inr (by simpa using h)

theorem run_const (hacyclic : s.globals.Acyclic) (hs : s.fault = none) {v : Int64}
    {sub : Sym.Offset} {host : Ty}
    (hsub : ∀ landing, OffsetRun site sub (some landing) s
      (ending (liftMemoryOffset sub (some landing)) site s)) :
    OffsetRun site (.const v sub) (some host) s
      (ending (liftMemoryOffset (.const v sub) (some host)) site s) := by
  have hpath := Globals.follows_navigation hacyclic (s.globals.resolve host) v
  rw [ending_const hs]
  cases h : s.globals.navigation (s.globals.resolve host) v with
  | error fault => exact .lost (h ▸ hpath)
  | ok path =>
    rw [h] at hpath
    rw [ok_bind]
    cases hlanding : path.landing with
    | ok landing => exact .lands hpath hlanding (hsub landing)
    | error reason => exact .stuck hpath hlanding rfl

theorem run_index {i : Sym.Expr} {sub : Sym.Offset}
    (hsub : ∀ result, ending (liftExpr i) site s = .ok result →
      OffsetRun site sub (elementType? s.globals host) result.2
        (ending (liftMemoryOffset sub (elementType? s.globals host)) site result.2)) :
    OffsetRun site (.index i sub) host s
      (ending (liftMemoryOffset (.index i sub) host) site s) := by
  rw [ending_index]
  cases hi : ending (liftExpr i) site s with
  | error fault => exact .indexLost hi
  | ok result => exact .index hi (hsub result hi)

theorem run_indexVar (hacyclic : s.globals.Acyclic) (hs : s.fault = none) {v : Sym.Variable}
    {elementSize : Nat} {sub : Sym.Offset}
    (hsub : ∀ result, ending (liftVariable v.settle) site s = .ok result →
      OffsetRun site sub (elementType? s.globals host) result.2
        (ending (liftMemoryOffset sub (elementType? s.globals host)) site result.2)) :
    OffsetRun site (.indexVar v elementSize sub) host s
      (ending (liftMemoryOffset (.indexVar v elementSize sub) host) site s) := by
  rw [ending_indexVar hacyclic hs]
  cases hsize : ((elementType? s.globals host).bind s.globals.size?).filter (· ≠ elementSize) with
  | some size =>
    obtain ⟨hfound, hne⟩ := Option.filter_eq_some_iff.mp hsize
    obtain ⟨element, helement, hfound⟩ := Option.bind_eq_some_iff.mp hfound
    have hmeasures := Globals.measures_size? hacyclic element
    exact .misscaled helement (hfound ▸ hmeasures) (of_decide_eq_true hne) rfl
  | none =>
    have hfits := measures_of_filter hacyclic hsize
    dsimp only
    cases hv : ending (liftVariable v.settle) site s with
    | error fault => exact .indexVarLost hfits hv
    | ok result => exact .indexVar hfits hv (hsub result hv)

/-- The lift of an offset is a run of it. -/
theorem liftMemoryOffset_run : ∀ (o : Sym.Offset) (host : Option Ty) (s : Session),
    s.globals.Acyclic → s.fault = none →
      OffsetRun site o host s (ending (liftMemoryOffset o host) site s)
  | .none, host, s, _, hs => by
    rw [liftMemoryOffset, Sym.Offset.settle, liftOffset, ending_eq_ok.mpr ⟨rfl, hs⟩]
    exact .none
  | .const v sub, some host, s, hacyclic, hs =>
    run_const hacyclic hs fun landing => liftMemoryOffset_run sub (some landing) s hacyclic hs
  | .const v sub, none, s, hacyclic, hs => by
    rw [liftMemoryOffset, Sym.Offset.settle, liftOffset]
    split
    next hzero =>
      subst hzero
      exact .zero (liftMemoryOffset_run sub none s hacyclic hs)
    next hne =>
      rw [ending_gap hs]
      exact .untyped hne rfl
  | .field name key sub, host, s, hacyclic, hs => by
    rw [ending_field]
    exact .field (liftMemoryOffset_run sub _ s hacyclic hs)
  | .index i sub, host, s, hacyclic, hs =>
    run_index fun result hi =>
      liftMemoryOffset_run sub _ result.2 (acyclic_after (liftExpr_steps i) hi hacyclic)
        (ending_eq_ok.mp hi).2
  | .indexVar v elementSize sub, host, s, hacyclic, hs =>
    run_indexVar hacyclic hs fun result hv =>
      liftMemoryOffset_run sub _ result.2 (acyclic_after (liftVariable_steps v.settle) hv hacyclic)
        (ending_eq_ok.mp hv).2
  | .unknown, host, s, _, hs => by
    rw [liftMemoryOffset, Sym.Offset.settle, liftOffset, ending_gap hs]
    exact .unknown rfl
termination_by o => sizeOf o

theorem navigation_of_follows (hacyclic : s.globals.Acyclic) {host : Ty} {bytes : Int64}
    {outcome : Except Fault Path} (h : s.globals.Follows host bytes outcome) :
    s.globals.navigation host bytes = outcome :=
  (Globals.follows_navigation hacyclic host bytes).unique hacyclic h

/-- No size is wrong if those of all elements are the one that is scaled by. -/
theorem filter_of_measures (hacyclic : s.globals.Acyclic) {elementSize : Nat}
    (h : ∀ element, elementType? s.globals host = some element →
      ∃ size, s.globals.Measures element size ∧ (size = none ∨ size = some elementSize)) :
    ((elementType? s.globals host).bind s.globals.size?).filter (· ≠ elementSize) = none := by
  cases helement : elementType? s.globals host with
  | none => rfl
  | some element =>
    obtain ⟨size, hsize, hfits⟩ := h element helement
    rw [Option.bind_some, (Globals.measures_iff hacyclic).mp hsize]
    rcases hfits with rfl | rfl
    · rfl
    · simp

/-- A run of an offset is its lift. -/
theorem eq_ending_of_run (hacyclic : s.globals.Acyclic) (hs : s.fault = none)
    {outcome : Except Fault (Offset × Session)} (h : OffsetRun site o host s outcome) :
    outcome = ending (liftMemoryOffset o host) site s := by
  induction h with
  | none =>
    rw [liftMemoryOffset, Sym.Offset.settle, liftOffset, ending_eq_ok.mpr ⟨rfl, hs⟩]
    rfl
  | lands hpath hlanding _ ih =>
    rw [ending_const hs, navigation_of_follows hacyclic hpath, ok_bind, hlanding, ih hacyclic hs]
  | stuck hpath hlanding hgap =>
    rw [ending_const hs, navigation_of_follows hacyclic hpath, ok_bind, hlanding]
    dsimp only
    rw [hgap]
    rfl
  | lost hpath =>
    rw [ending_const hs, navigation_of_follows hacyclic hpath]
    rfl
  | zero _ ih =>
    rw [ih hacyclic hs, liftMemoryOffset, liftMemoryOffset, Sym.Offset.settle, liftOffset,
      if_pos rfl]
  | untyped hv hgap =>
    rw [liftMemoryOffset, Sym.Offset.settle, liftOffset, if_neg hv, ending_gap hs, hgap]
  | field _ ih => rw [ending_field, ih hacyclic hs]
  | index hi _ ih =>
    obtain ⟨-, hs'⟩ := ending_eq_ok.mp hi
    rw [ending_index, hi, ok_bind, ih (acyclic_after (liftExpr_steps _) hi hacyclic) hs']
  | indexLost hi =>
    rw [ending_index, hi]
    rfl
  | misscaled helement hsize hne hgap =>
    rw [ending_indexVar hacyclic hs, helement, Option.bind_some,
      (Globals.measures_iff hacyclic).mp hsize, Option.filter_some, if_pos (decide_eq_true hne)]
    exact congrArg Except.ok hgap.symm
  | indexVar hsize hv _ ih =>
    obtain ⟨-, hs'⟩ := ending_eq_ok.mp hv
    rw [ending_indexVar hacyclic hs, filter_of_measures hacyclic hsize]
    dsimp only
    rw [hv, ok_bind, ih (acyclic_after (liftVariable_steps _) hv hacyclic) hs']
  | indexVarLost hsize hv =>
    rw [ending_indexVar hacyclic hs, filter_of_measures hacyclic hsize]
    dsimp only
    rw [hv]
    rfl
  | unknown hgap =>
    rw [liftMemoryOffset, Sym.Offset.settle, liftOffset, ending_gap hs, hgap]

/-- **Sizes and offsets come to an end.** In an acyclic table every type has exactly one size, or
none, and every byte offset leads to exactly one outcome in every type; both are what is computed with
any bound that leaves room for the type. The outcome is a path, or there is no quotient on the way,
and there is one wherever sizes fit into words. Every offset is lifted with exactly one outcome, for
memory of whatever type, and it never is that the lift does not come to an end. A structure of known
size is as long as its fields need: each of them has an offset and is over within it, and if there are
any, one is over exactly at its end. -/
theorem sizes_and_offsets_end {g : Globals} (hacyclic : g.Acyclic) :
    (∀ t, (∃! size, g.Measures t size) ∧
        ∀ depth, t.depth + g.nesting < depth →
          ∃ size, g.sizeWithin depth t = .ok size ∧ g.Measures t size) ∧
      (∀ host bytes, (∃! outcome, g.Follows host bytes outcome) ∧
        (∀ depth, host.depth + g.nesting < depth →
          g.Follows host bytes (g.navigateWithin depth host bytes)) ∧
        ¬ g.Follows host bytes (.error .endless) ∧
        (g.SizesFit host → ∃ path, g.Follows host bytes (.ok path))) ∧
      (∀ (site : Site) (s : Session) (o : Sym.Offset) (host : Option Ty),
        s.globals = g → s.fault = none →
          (∃! outcome, OffsetRun site o host s outcome) ∧
            OffsetRun site o host s (ending (liftMemoryOffset o host) site s) ∧
            ¬ OffsetRun site o host s (.error .endless)) ∧
      ∀ t key name c n, g.resolve t = .composite key name → g.composite? key = some c →
        c.isUnion = false → g.EndsFit c → g.size? t = some n →
          (∀ f ∈ c.fields, ∃ m ≤ n, g.EndsAt f m) ∧
            (c.fields ≠ [] → ∃ f ∈ c.fields, g.EndsAt f n) := by
  refine ⟨fun t => ⟨?_, ?_⟩, fun host bytes => ⟨?_, ?_, ?_, ?_⟩, ?_, ?_⟩
  · exact ⟨g.size? t, Globals.measures_size? hacyclic t,
      fun _ h => h.unique (Globals.measures_size? hacyclic t)⟩
  · exact fun depth h => Globals.measures_sizeWithin hacyclic (Globals.fits_nesting h)
  · have hpath := Globals.follows_navigation hacyclic host bytes
    exact ⟨_, hpath, fun _ h => h.unique hacyclic hpath⟩
  · exact fun depth h => Globals.follows_navigateWithin hacyclic (Globals.fits_nesting h) bytes
  · exact fun h => h.ne_endless rfl
  · intro hsizes
    have hpath := Globals.follows_navigation hacyclic host bytes
    obtain ⟨path, hpath'⟩ := hpath.exists_path hacyclic
      (hsizes.inside (.named (g.denotes_resolve host) .self))
    exact ⟨path, hpath' ▸ hpath⟩
  · rintro site s o host rfl hs
    have hrun : OffsetRun site o host s (ending (liftMemoryOffset o host) site s) :=
      liftMemoryOffset_run o host s hacyclic hs
    refine ⟨⟨_, hrun, fun _ h => eq_ending_of_run hacyclic hs h⟩, hrun, fun h => ?_⟩
    exact (liftMemoryOffset_steps o host).ending_ne_endless hacyclic hs
      (eq_ending_of_run hacyclic hs h).symm
  · intro t key name c n ht hc hstruct hfit hn
    exact Globals.structure_fields hacyclic ht hc hstruct hfit hn

theorem acyclic_rowGlobals : rowGlobals.Acyclic := by
  refine Globals.acyclic_of_rank (fun | .name _ => 1 | .composite _ => 0) ?_
  rintro (key | name) q ⟨t, ht, hq⟩
  · cases hc : rowGlobals.composite? key with
    | none => simp [Globals.definition, hc] at ht
    | some c =>
      obtain rfl := composite?_pairGlobals hc
      obtain rfl : t = .int .int := by simpa [Globals.definition, hc] using ht
      cases hq
  · obtain rfl : t = rowType := by
      rw [Globals.definition, rowGlobals, Std.TreeMap.getElem?_insert] at ht
      split at ht
      · simpa using ht
      · simp at ht
    obtain rfl := Option.some.inj hq
    exact Nat.zero_lt_one

theorem endsFit_rowGlobals {key : Nat} {c : Composite} (hc : rowGlobals.composite? key = some c) :
    rowGlobals.EndsFit c := by
  have hint : rowGlobals.size? (.int .int) = some 4 := by decide
  intro f hf start size hstart hsize
  rw [composite?_pairGlobals hc, List.mem_cons, List.mem_singleton] at hf
  rcases hf with rfl | rfl
  all_goals
    obtain rfl := Option.some.inj hstart
    obtain rfl := Option.some.inj (hint.symm.trans hsize)
    decide

/-- A row of two pairs, under its name: it has sixteen bytes, twelve bytes into it starts the second
field of the second pair, and a pair is over where its second field is. -/
theorem sizes_and_offsets_end_in_rows :
    let s := Session.start { globals := rowGlobals } "f"
    rowGlobals.Acyclic ∧ rowGlobals.Measures (.named "row") (some 16) ∧
      OffsetRun ⟨{}, 0x400, []⟩ (.const 12 .none) (some (.named "row")) s
        (.ok (.index (.int 1 .int) (.field "second" 1 .none), s)) ∧
      ∃ c, rowGlobals.composite? 1 = some c ∧ ∃ f ∈ c.fields, rowGlobals.EndsAt f 8 := by
  intro s
  obtain ⟨hsizes, -, hruns, hfields⟩ := sizes_and_offsets_end acyclic_rowGlobals
  have hpair : rowGlobals.composite? 1 = some _ := rfl
  have hfit := endsFit_rowGlobals hpair
  have hrow : rowGlobals.sizeWithin 8 (.named "row") = .ok (some 16) := by decide
  refine ⟨acyclic_rowGlobals, ?_, ?_, _, rfl, ?_⟩
  · obtain ⟨size, hsize, hmeasures⟩ := (hsizes (.named "row")).2 8 (by decide)
    obtain rfl := Except.ok.inj (hrow.symm.trans hsize)
    exact hmeasures
  · exact (hruns ⟨{}, 0x400, []⟩ s (.const 12 .none) (some (.named "row")) rfl rfl).2.1
  · exact (hfields (.composite 1 "pair") 1 "pair" _ 8 rfl rfl rfl hfit (by decide)).2 nofun

end LiftM

end FactLift
