import FactLift.Proofs.C.Placeholder
import FactLift.Proofs.Lift.Edits
import FactLift.Proofs.Sym.Fields
import FactLift.Proofs.Symbols.KnownFields
import FactLift.Proofs.Symbols.Registered

/-! Where the fields of a lifted offset come from.

A field that is found for a byte offset is in the table. A field that the symbolic offset names is
taken as it is named. There are no others: every field that a lifted offset goes through, at any
depth, is in the table or is named by the offset (`liftMemoryOffset_fieldSteps`).

`Gives K x fields` follows a lift: if all fields in the table satisfy `K`, then those of the result
do, and the table stays one whose fields satisfy `K`. -/

namespace FactLift

open C

namespace Globals

variable {g : Globals} {key : Nat} {bytes : Int64}

theorem fieldStart?_hasField {target : Ty} {name : String}
    (h : fieldStart? g target bytes = some (name, key)) : g.HasField (name, key) := by
  unfold fieldStart? at h
  obtain ⟨key', -, h⟩ := Option.bind_eq_some_iff.mp h
  obtain ⟨c, hc, h⟩ := Option.bind_eq_some_iff.mp h
  obtain ⟨⟨f, rest⟩, hf, h⟩ := Option.bind_eq_some_iff.mp h
  dsimp only at h
  split at h
  · obtain ⟨rfl, rfl⟩ := Prod.mk.inj (Option.some.inj h)
    exact hasField_of_fieldAt? hc hf
  · cases h

/-- A moved pointer goes through what the pointer does, and through a field in the table at most. -/
theorem fieldSteps_moveBy {K : String × Nat → Prop} (hg : ∀ field, g.HasField field → K field)
    {p : Expr} (hp : ∀ field ∈ p.fieldSteps, K field) (cfg : Config) (op : BinOp) (c : Int64) :
    ∀ field ∈ (moveBy cfg g op p c).fieldSteps, K field := by
  have h := moveBy_form cfg g op p c
  generalize moveBy cfg g op p c = e at h ⊢
  cases h with
  | field hstart =>
    have hfield := hg _ (fieldStart?_hasField hstart)
    simpa [Expr.fieldSteps, Lval.fieldSteps, Offset.fieldSteps, or_imp, forall_and, hfield] using hp
  | elements | bytes => simpa [Expr.fieldSteps] using hp

end Globals

/-! ### Lifting -/

/-- The types are left alone by every change that lifting a value makes. -/
theorem Session.Edit.sameTypes {s s' : Session} (h : s.Edit s') :
    s.globals.SameTypes s'.globals := by
  cases h with
  | global v => exact s.globals.sameTypes_addVariable v
  | _ => exact ⟨rfl, rfl⟩

namespace LiftM

theorem Edits.sameTypes {α : Type} {x : LiftM α} (hx : Edits x) (site : Site) (s : Session) :
    s.globals.SameTypes (x site s).2.globals := by
  have hedits := hx site s
  generalize (x site s).2 = s' at hedits ⊢
  induction hedits with
  | refl => exact ⟨rfl, rfl⟩
  | tail _ hedit ih => exact ih.trans hedit.sameTypes

variable {α β : Type} {K : String × Nat → Prop}

/-- If the fields in the table satisfy `K`, those of the result do, and those in the table still. -/
def Gives (K : String × Nat → Prop) (x : LiftM α) (fields : α → List (String × Nat)) : Prop :=
  ∀ site s, (∀ field, s.globals.HasField field → K field) →
    (∀ field ∈ fields (x site s).1, K field) ∧
      ∀ field, (x site s).2.globals.HasField field → K field

namespace Gives

variable {x : LiftM α} {fields : α → List (String × Nat)}

theorem pure {a : α} (h : ∀ field ∈ fields a, K field) : Gives K (pure a : LiftM α) fields :=
  fun _ _ hs => ⟨h, hs⟩

theorem bind {f : α → LiftM β} {after : β → List (String × Nat)} (hx : Gives K x fields)
    (hf : ∀ a, (∀ field ∈ fields a, K field) → Gives K (f a) after) : Gives K (x >>= f) after := by
  intro site s hs
  obtain ⟨ha, hs'⟩ := hx site s hs
  exact hf _ ha site _ hs'

/-- The result is wrapped into something that goes through the same fields. -/
theorem map {f : α → β} {after : β → List (String × Nat)} (hx : Gives K x fields)
    (h : ∀ a, after (f a) = fields a) : Gives K (do return f (← x)) after :=
  hx.bind fun a ha => .pure (h a ▸ ha)

/-- A step whose result goes through no fields. -/
theorem next (hx : Steps x) {f : α → LiftM β} {after : β → List (String × Nat)}
    (hf : ∀ a, Gives K (f a) after) : Gives K (x >>= f) after := by
  intro site s hs
  refine hf _ site _ fun field hfield => hs field ?_
  obtain ⟨c, hc, hfield⟩ := hfield
  exact ⟨c, (hx.edits.sameTypes site s).composite? _ ▸ hc, hfield⟩

/-- The table is looked at. -/
theorem globals {f : Globals → LiftM β} {after : β → List (String × Nat)}
    (hf : ∀ g : Globals, (∀ field, g.HasField field → K field) → Gives K (f g) after) :
    Gives K (LiftM.globals >>= f) after :=
  fun site s hs => hf s.globals hs site s hs

/-- What an attempt comes to goes through such fields. -/
theorem attempt {y : Except Fault α} {fallback : α}
    (h : ∀ field ∈ fields (y.toOption.getD fallback), K field) :
    Gives K (attempt y fallback) fields :=
  fun _ _ hs => ⟨h, hs⟩

end Gives

theorem unresolvedExpr_gives {kind : DiagnosticKind} (reason : String) (h : kind.isPlaceholder) :
    Gives K (unresolvedExpr kind reason) Expr.fieldSteps :=
  .next (.report reason h) fun _ => .pure (by simp [Expr.fieldSteps])

theorem unresolvedOffset_gives (reason : String) :
    Gives K (unresolvedOffset reason) Offset.fieldSteps :=
  .next (.report reason (by decide)) fun _ => .pure (by simp [Offset.fieldSteps])

/-- A step whose result is read as a variable. -/
theorem Steps.symbol_gives {x : LiftM Symbol} (hx : Steps x) :
    Gives K (do return .ofSymbol (← x)) Expr.fieldSteps :=
  .next hx fun s => .pure (by simp)

theorem slotAddress_gives (offset : Int64) : Gives K (slotAddress offset) Expr.fieldSteps :=
  .next (.slot _) fun s => .pure (by simp [Expr.fieldSteps, Lval.fieldSteps, Offset.fieldSteps])

/-- A path goes through fields in the table, then through what follows its landing. -/
theorem along_gives (host : Ty) (bytes : Int64) {rest : Ty → LiftM Offset}
    (hrest : ∀ t, Gives K (rest t) Offset.fieldSteps) :
    Gives K (along host bytes rest) Offset.fieldSteps := by
  have hfollowed : Gives K (followed host bytes) Path.fields := .globals fun g hg =>
    .attempt fun field hfield => hg field (Globals.navigate_hasField host bytes field hfield)
  refine hfollowed.bind fun path hpath => ?_
  have hwrap (inner : Offset) (hinner : ∀ field ∈ inner.fieldSteps, K field) :
      ∀ field ∈ (path.wrap inner).fieldSteps, K field := by
    rw [Path.fieldSteps_wrap]
    exact List.forall_mem_append.mpr ⟨hpath, hinner⟩
  split
  · exact (hrest _).bind fun inner hinner => .pure (hwrap inner hinner)
  · exact (unresolvedOffset_gives _).bind fun inner hinner => .pure (hwrap inner hinner)

theorem liftAddress_gives (a : UInt64) : Gives K (liftAddress a) Expr.fieldSteps := by
  have hwrap (s : Symbol) (offset : Offset) :
      (Expr.globalAddress a.toInt64 (.addressOf (.var s offset))).fieldSteps =
        offset.fieldSteps := by
    simp only [Expr.fieldSteps, Lval.fieldSteps]
  refine .next (sought_steps a) fun found => ?_
  split
  · exact .pure (by simp [Expr.fieldSteps])
  · dsimp only
    split
    · exact .pure (by rw [hwrap]; simp [Offset.fieldSteps])
    · split
      · exact (along_gives _ _ fun _ => .pure (by simp [Offset.fieldSteps])).map (hwrap _)
      · exact (unresolvedOffset_gives _).map (hwrap _)

theorem liftConstant_gives (c : Sym.Constant) : Gives K (liftConstant c) Expr.fieldSteps := by
  unfold liftConstant
  split
  · exact .pure (by simp [Expr.fieldSteps])
  · exact .pure (by simp [Expr.fieldSteps])
  · exact liftAddress_gives _

theorem liftInitialRegister_gives (register : String) :
    Gives K (liftInitialRegister register) Expr.fieldSteps := by
  unfold liftInitialRegister
  split
  · exact slotAddress_gives 0
  · refine .next .locals fun l => ?_
    split
    · exact .pure (by simp)
    · exact (Steps.named ..).symbol_gives

theorem liftReturnValue_gives (name : String) (callSite : UInt64) (callee : Option String) :
    Gives K (liftReturnValue name callSite callee) Expr.fieldSteps := by
  refine .next .locals fun l => ?_
  split
  · exact .pure (by simp)
  · exact (Steps.named ..).symbol_gives
  · exact unresolvedExpr_gives _ (by decide)

theorem combined_gives (op : Sym.Op) {args : List Expr}
    (hargs : ∀ a ∈ args, ∀ field ∈ a.fieldSteps, K field) :
    Gives K (combined op args) Expr.fieldSteps := by
  unfold combined
  split
  next e he =>
    refine .pure ?_
    unfold combine? at he
    split at he
    next a =>
      obtain ⟨o, -, rfl⟩ := Option.map_eq_some_iff.mp he
      simpa [Expr.fieldSteps] using hargs
    next a b =>
      obtain ⟨o, -, rfl⟩ := Option.map_eq_some_iff.mp he
      simpa [Expr.fieldSteps, or_imp, forall_and] using hargs
    next => cases he
  next => exact unresolvedExpr_gives _ (by decide)

theorem fieldSteps_mem {e : Expr} {o : Offset} (he : ∀ field ∈ e.fieldSteps, K field)
    (ho : ∀ field ∈ o.fieldSteps, K field) : ∀ field ∈ (Lval.mem e o).fieldSteps, K field := by
  rw [Lval.fieldSteps]
  exact List.forall_mem_append.mpr ⟨he, ho⟩

theorem fieldSteps_binary {op : BinOp} {e f : Expr} (he : ∀ field ∈ e.fieldSteps, K field)
    (hf : ∀ field ∈ f.fieldSteps, K field) :
    ∀ field ∈ (Expr.binary op e f).fieldSteps, K field := by
  rw [Expr.fieldSteps]
  exact List.forall_mem_append.mpr ⟨he, hf⟩

/-- The fields that a place goes through. -/
def placeFields : Except String Lval → List (String × Nat)
  | .ok l => l.fieldSteps
  | .error _ => []

theorem placed_gives {place : Except String Lval} (h : ∀ field ∈ placeFields place, K field) :
    Gives K (placed place) Lval.fieldSteps := by
  cases place with
  | ok l => exact .pure h
  | error reason =>
    exact (unresolvedExpr_gives reason (by decide)).map fun e => by
      simp [Lval.fieldSteps, Offset.fieldSteps]

/-- A step whose result is a variable to go to. -/
theorem Steps.var_gives {x : LiftM Symbol} (hx : Steps x) :
    Gives K (do return .ok (.var (← x) .none)) placeFields :=
  .next hx fun s => .pure (by simp [placeFields, Lval.fieldSteps, Offset.fieldSteps])

/-- An operator goes through the fields of its operands. -/
theorem liftSettled_apply_gives (op : Sym.Op) {args : List Sym.Expr}
    (hargs : ∀ a ∈ args, Gives K (liftSettled a) Expr.fieldSteps) :
    Gives K (liftSettled (.apply op args)) Expr.fieldSteps := by
  have h := liftSettled_apply op args
  generalize liftSettled (.apply op args) = x at h ⊢
  cases h with
  | slot => exact slotAddress_gives _
  | masked => exact (hargs _ (by simp)).map fun e => by simp [Expr.fieldSteps]
  | unary =>
    exact (hargs _ (by simp)).bind fun e he =>
      combined_gives op (List.forall_mem_singleton.mpr he)
  | moved =>
    exact (hargs _ (by simp)).bind fun p hp => .next .read fun site => .globals fun g hg =>
      .attempt (Globals.fieldSteps_moveBy hg hp _ _ _)
  | shifted =>
    exact (hargs _ (by simp)).bind fun e he => (hargs _ (by simp)).bind fun s hs =>
      .next .globals fun g => .pure (fieldSteps_binary (by rwa [Expr.fieldSteps]) hs)
  | byte => exact (hargs _ (by simp)).map fun e => by simp [byteAt, Expr.fieldSteps]
  | binary =>
    exact (hargs _ (by simp)).bind fun e he => (hargs _ (by simp)).bind fun f hf =>
      combined_gives op (List.forall_mem_cons.mpr ⟨he, List.forall_mem_singleton.mpr hf⟩)
  | unresolved reason => exact unresolvedExpr_gives reason (by decide)

mutual

theorem liftSettled_gives : ∀ x : Sym.Expr, (∀ field ∈ x.fields, K field) →
    Gives K (liftSettled x) Expr.fieldSteps
  | .const c, _ => by
    rw [liftSettled]
    exact liftConstant_gives c
  | .var v, h => by
    rw [Sym.Expr.fields] at h
    rw [liftSettled]
    exact liftVariable_gives v h
  | .apply op args, h => by
    rw [Sym.Expr.fields, Sym.fieldsOf_eq_flatMap] at h
    exact liftSettled_apply_gives op fun a ha => liftSettled_gives a fun field hfield =>
      h field (List.mem_flatMap.mpr ⟨a, ha, hfield⟩)
termination_by x => sizeOf x

theorem liftVariable_gives : ∀ v : Sym.Variable, (∀ field ∈ v.fields, K field) →
    Gives K (liftVariable v) Expr.fieldSteps
  | ⟨name, number, meaning⟩, h => by
    rw [Sym.Variable.fields] at h
    unfold liftVariable
    split
    · exact (Steps.temporary name).symbol_gives
    · split
      · exact (registerUse_steps _).symbol_gives
      · exact (Steps.flag _).symbol_gives
      · refine (liftPlace_gives name _ h).bind fun place hplace =>
          (placed_gives hplace).map fun l => ?_
        rw [Expr.fieldSteps]
      · rw [Sym.Meaning.fields] at h
        exact liftFixed_gives name _ h
      · exact unresolvedExpr_gives _ (by decide)
termination_by v => sizeOf v

theorem liftFixed_gives (name : String) : ∀ value : Sym.FixedValue,
    (∀ field ∈ value.fields, K field) → Gives K (liftFixed name value) Expr.fieldSteps
  | .initialRegister r _, _ => by
    rw [liftFixed]
    exact liftInitialRegister_gives r
  | .initialMemory v, h => by
    rw [Sym.FixedValue.fields] at h
    rw [liftFixed]
    refine .next (stackFormal?_steps v) fun formal => ?_
    split
    · exact .pure (by simp)
    · refine (liftLvalue_gives v h).bind fun place hplace => (placed_gives hplace).map fun l => ?_
      rw [Expr.fieldSteps]
  | .returnValue callSite callee, _ => by
    rw [liftFixed]
    exact liftReturnValue_gives name callSite callee
  | .symbolic _ x, h => by
    rw [Sym.FixedValue.fields] at h
    rw [liftFixed]
    exact liftSettled_gives x h
termination_by value => sizeOf value

theorem liftLvalue_gives : ∀ v : Sym.Variable, (∀ field ∈ v.fields, K field) →
    Gives K (liftLvalue v) placeFields
  | ⟨name, number, meaning⟩, h => by
    rw [Sym.Variable.fields] at h
    rw [liftLvalue]
    split
    · exact (Steps.temporary name).var_gives
    · exact liftPlace_gives name meaning h
termination_by v => sizeOf v

theorem liftPlace_gives (name : String) : ∀ meaning : Sym.Meaning,
    (∀ field ∈ meaning.fields, K field) → Gives K (liftPlace name meaning) placeFields
  | .register r, _ => by
    rw [liftPlace]
    exact (Steps.register r).var_gives
  | .flag f, _ => by
    rw [liftPlace]
    exact (Steps.flag f).var_gives
  | .memory .localFrame _ .none, _ => by
    rw [liftPlace]
    exact (Steps.slot _).var_gives
  | .memory .localFrame _ (.const v sub), h => by
    rw [Sym.Meaning.fields, Sym.Base.fields, List.nil_append, Sym.Offset.fields] at h
    rw [liftPlace]
    refine .next (.slot _) fun s => (liftOffset_gives sub s.type h).map fun o => ?_
    rw [placeFields, Lval.fieldSteps]
  | .memory .localFrame _ (.field ..), _ | .memory .localFrame _ (.index ..), _
  | .memory .localFrame _ (.indexVar ..), _ | .memory .localFrame _ .unknown, _
  | .memory .allocatedFrame _ _, _ | .memory .realignedFrame _ _, _ | .memory (.unknown _) _ _, _
  | .fixed _, _ | .absent, _ => by
    simp only [liftPlace]
    exact .pure (by simp [placeFields])
  | .memory .globals _ (.const v sub), h => by
    rw [Sym.Meaning.fields, Sym.Base.fields, List.nil_append, Sym.Offset.fields] at h
    rw [liftPlace]
    refine .next (globalAt_steps _) fun found => ?_
    obtain ⟨s, distance⟩ := found
    have hvar (o : Offset) : placeFields (.ok (.var s o)) = o.fieldSteps := by
      rw [placeFields, Lval.fieldSteps]
    dsimp only
    split
    · exact (along_gives _ _ fun t => liftOffset_gives sub (some t) h).map hvar
    · split
      · exact (liftOffset_gives sub none h).map hvar
      · exact (unresolvedOffset_gives _).map hvar
  | .memory .globals _ .none, _ | .memory .globals _ (.field ..), _
  | .memory .globals _ (.index ..), _ | .memory .globals _ (.indexVar ..), _
  | .memory .globals _ .unknown, _ => by
    simp only [liftPlace]
    exact .pure (by simp [placeFields])
  | .memory (.pointer v) _ offset, h => by
    rw [Sym.Meaning.fields, Sym.Base.fields] at h
    obtain ⟨hv, hoffset⟩ := List.forall_mem_append.mp h
    rw [liftPlace]
    exact (liftVariable_gives v hv).bind fun p hp =>
      (liftDeref_gives p hp offset hoffset).map fun l => by rw [placeFields]
termination_by meaning => sizeOf meaning

theorem liftDeref_gives (p : Expr) (hp : ∀ field ∈ p.fieldSteps, K field) : ∀ o : Sym.Offset,
    (∀ field ∈ o.fields, K field) → Gives K (liftDeref p o) Lval.fieldSteps
  | .none, _ => by
    rw [liftDeref]
    exact .pure (fieldSteps_mem hp (by simp [Offset.fieldSteps]))
  | .unknown, _ => by
    rw [liftDeref]
    exact (unresolvedOffset_gives _).bind fun o ho => .pure (fieldSteps_mem hp ho)
  | .field name key sub, h => by
    rw [Sym.Offset.fields] at h
    obtain ⟨hfield, hsub⟩ := List.forall_mem_cons.mp h
    rw [liftDeref]
    refine .next .globals fun g => (liftOffset_gives sub _ hsub).bind fun o ho =>
      .pure (fieldSteps_mem hp ?_)
    rw [Offset.fieldSteps]
    exact List.forall_mem_cons.mpr ⟨hfield, ho⟩
  | .const v sub, h => by
    rw [Sym.Offset.fields] at h
    rw [liftDeref]
    refine .next .globals fun g => .next .read fun site => ?_
    dsimp only
    split
    · exact (along_gives _ v fun landing => liftOffset_gives sub (some landing) h).bind
        fun o ho => .pure (fieldSteps_mem hp ho)
    · split
      · exact (liftOffset_gives sub _ h).bind fun o ho => .pure (fieldSteps_mem hp ho)
      · exact (liftOffset_gives sub none h).bind fun o ho =>
          .pure (fieldSteps_mem (fieldSteps_binary hp (by simp [Expr.fieldSteps])) ho)
  | .index i sub, h => by
    rw [Sym.Offset.fields] at h
    obtain ⟨hi, hsub⟩ := List.forall_mem_append.mp h
    rw [liftDeref]
    exact .next .globals fun g => (liftSettled_gives i hi).bind fun e he =>
      (liftOffset_gives sub _ hsub).bind fun o ho =>
        .pure (fieldSteps_mem (fieldSteps_binary hp he) ho)
  | .indexVar v elementSize sub, h => by
    rw [Sym.Offset.fields] at h
    obtain ⟨hv, hsub⟩ := List.forall_mem_append.mp h
    rw [liftDeref]
    refine .next .globals fun g => (liftVariable_gives v hv).bind fun e he => ?_
    refine .next (measured_steps _) fun size => (liftOffset_gives sub _ hsub).bind fun o ho =>
      .pure (fieldSteps_mem (fieldSteps_binary hp ?_) ho)
    split
    · exact he
    · exact fieldSteps_binary he (by simp [Expr.fieldSteps])
termination_by o => sizeOf o

theorem liftOffset_gives : ∀ (o : Sym.Offset) (host : Option Ty), (∀ field ∈ o.fields, K field) →
    Gives K (liftOffset o host) Offset.fieldSteps
  | .none, _, _ => by
    rw [liftOffset]
    exact .pure (by simp [Offset.fieldSteps])
  | .const v sub, some host, h => by
    rw [Sym.Offset.fields] at h
    rw [liftOffset]
    exact .next .globals fun g =>
      along_gives _ v fun landing => liftOffset_gives sub (some landing) h
  | .const v sub, none, h => by
    rw [Sym.Offset.fields] at h
    rw [liftOffset]
    split
    · exact liftOffset_gives sub none h
    · exact unresolvedOffset_gives _
  | .field name key sub, _, h => by
    rw [Sym.Offset.fields] at h
    obtain ⟨hfield, hsub⟩ := List.forall_mem_cons.mp h
    rw [liftOffset]
    refine .next .globals fun g => (liftOffset_gives sub _ hsub).bind fun inner hinner => .pure ?_
    rw [Offset.fieldSteps]
    exact List.forall_mem_cons.mpr ⟨hfield, hinner⟩
  | .index i sub, host, h => by
    rw [Sym.Offset.fields] at h
    obtain ⟨hi, hsub⟩ := List.forall_mem_append.mp h
    rw [liftOffset]
    refine (liftSettled_gives i hi).bind fun e he => .next .globals fun g =>
      (liftOffset_gives sub _ hsub).bind fun inner hinner => .pure ?_
    rw [Offset.fieldSteps]
    exact List.forall_mem_append.mpr ⟨he, hinner⟩
  | .indexVar v elementSize sub, host, h => by
    rw [Sym.Offset.fields] at h
    obtain ⟨hv, hsub⟩ := List.forall_mem_append.mp h
    rw [liftOffset]
    refine .next .globals fun g => .next (measured_steps _) fun size => ?_
    split
    · exact unresolvedOffset_gives _
    · refine (liftVariable_gives v hv).bind fun e he =>
        (liftOffset_gives sub _ hsub).bind fun inner hinner => .pure ?_
      rw [Offset.fieldSteps]
      exact List.forall_mem_append.mpr ⟨he, hinner⟩
  | .unknown, _, _ => by
    rw [liftOffset]
    exact unresolvedOffset_gives _
termination_by o => sizeOf o

end

/-- **Fields are not guessed.** Every field that a lifted offset goes through is one of a composite
in the table whose layout is complete, or is named by the offset itself. -/
theorem liftMemoryOffset_fieldSteps (o : Sym.Offset) (host : Option Ty) (site : Site)
    (s : Session) :
    ∀ field ∈ (liftMemoryOffset o host site s).1.fieldSteps,
      s.globals.HasField field ∨ field ∈ o.fields := by
  have hnamed : ∀ field ∈ o.settle.fields, s.globals.HasField field ∨ field ∈ o.fields :=
    fun field hfield => .inr (o.fields_settle ▸ hfield)
  exact (liftOffset_gives o.settle host hnamed site s fun _ => .inl).1

/-- A constant into an array of structures finds a field of its second element. -/
theorem liftMemoryOffset_fieldSteps_of_element :
    let c : Composite := ⟨"s", 1, false, [⟨"a", .int .int, some 0⟩, ⟨"b", .int .int, some 4⟩]⟩
    let g : Globals := { composites := (∅ : Std.TreeMap Nat Composite).insert 1 c }
    let s : Session := .start { globals := g } "f"
    let host : Ty := .array (.composite 1 "s") (some (.int 2 .int))
    let o := (liftMemoryOffset (.const 12 .none) (some host) ⟨{}, 16, []⟩ s).1
    ("b", 1) ∈ o.fieldSteps ∧ s.globals.HasField ("b", 1) := by
  intro c g s host o
  have hfield : ("b", 1) ∈ o.fieldSteps := by decide
  refine ⟨hfield, ?_⟩
  obtain hknown | hnamed := liftMemoryOffset_fieldSteps _ _ _ s ("b", 1) hfield
  · exact hknown
  · simp [Sym.Offset.fields] at hnamed

/-- A structure whose second field has no known place. -/
def patchyComposite : Composite :=
  ⟨"s", 1, false, [⟨"a", .int .int, some 0⟩, ⟨"b", .int .int, none⟩]⟩

/-- A field that an offset names is taken unseen: its composite has no complete layout, and no
placeholder says so. -/
theorem liftMemoryOffset_takes_field :
    let g : Globals := { composites := (∅ : Std.TreeMap Nat Composite).insert 1 patchyComposite }
    let s : Session := .start { globals := g } "f"
    let o := (liftMemoryOffset (.field "b" 1 .none) none ⟨{}, 16, []⟩ s).1
    o.reasons = [] ∧ ∃ field ∈ o.fieldSteps, ¬ g.HasField field := by
  intro g s o
  refine ⟨by decide, ("b", 1), by decide, ?_⟩
  rintro ⟨c, hc, hcomplete, -⟩
  obtain rfl : patchyComposite = c := by simpa [g, Globals.composite?] using hc
  simp [patchyComposite, Composite.isComplete] at hcomplete

end LiftM

end FactLift
