import FactLift.Proofs.Symbols.Containment

/-! Sizes by the rules of their types.

`g.Measures t size` says what the size of a type comes out as, or that the type has none, by rules
that know of no bound: the size of an array is derived from that of its elements, that of a
composite from those of all its fields. A derivation is finite, so nothing is derived for a
composite that contains itself. In an acyclic table there is exactly one answer for every type, and
this is what is computed as soon as the bound leaves room for the type (`measures_sizeWithin`). A
structure of known size is as long as its fields need (`structure_fields`). -/

namespace FactLift

open C

/-- The size of an array type, from that of its elements. -/
def C.Ty.arraySize? (array : Ty) (element : Option Nat) : Option Nat := do
  let n ← array.length?
  if n < 0 then none else Globals.arraySize? n.toInt.toNat element

/-- The size of a composite, from those of its fields: where the last one ends. -/
def C.Composite.sizeBy (c : Composite) (sizes : Ty → Option Nat) : Option Nat :=
  c.fields.foldlM (fun size f => do
    let fieldEnd ← Globals.fieldEnd? c f (← sizes f.type)
    return max size fieldEnd) 0

namespace Globals

variable {g : Globals} {t : Ty}

/-- What is derived about the size of a type whose name is looked through. -/
inductive Measured (g : Globals) : Ty → Option Nat → Prop
  | void : Measured g .void none
  | function (result : Ty) (params : Option (List Param)) (variadic : Bool) :
      Measured g (.function result params variadic) none
  | named (name : String) : Measured g (.named name) none
  | int (k : IntKind) : Measured g (.int k) (some k.size)
  | enumeration (name : String) (k : IntKind) : Measured g (.enumeration name k) (some k.size)
  | float (k : FloatKind) : Measured g (.float k) (some k.size)
  | pointer (target : Ty) : Measured g (.pointer target) (some Target.pointerSize)
  | array {element : Ty} {length : Option Expr} {size : Option Nat}
      (helement : Measured g (g.resolve element) size) :
      Measured g (.array element length) ((Ty.array element length).arraySize? size)
  | undefined {key : Nat} {name : String} (hc : g.composite? key = none) :
      Measured g (.composite key name) none
  | composite {key : Nat} {name : String} {c : Composite} {sizes : Ty → Option Nat}
      (hc : g.composite? key = some c)
      (hfields : ∀ f ∈ c.fields, Measured g (g.resolve f.type) (sizes f.type)) :
      Measured g (.composite key name) (c.sizeBy sizes)

/-- What is derived about the size of a type. -/
def Measures (g : Globals) (t : Ty) (size : Option Nat) : Prop :=
  g.Measured (g.resolve t) size

theorem sizeBy_congr {c : Composite} {sizes sizes' : Ty → Option Nat}
    (h : ∀ f ∈ c.fields, sizes f.type = sizes' f.type) : c.sizeBy sizes = c.sizeBy sizes' := by
  unfold Composite.sizeBy
  generalize c.fields = fields at h ⊢
  generalize 0 = size
  induction fields generalizing size with
  | nil => rfl
  | cons f rest ih =>
    obtain ⟨hfirst, hrest⟩ := List.forall_mem_cons.mp h
    simp only [List.foldlM_cons, hfirst, ih hrest]

theorem Measured.unique {size size' : Option Nat} (h : g.Measured t size)
    (h' : g.Measured t size') : size = size' := by
  induction h generalizing size' with
  | array _ ih =>
    cases h' with
    | array h' => rw [ih h']
  | undefined hc =>
    cases h' with
    | undefined => rfl
    | composite hc' => exact absurd (hc.symm.trans hc') nofun
  | composite hc _ ih =>
    cases h' with
    | undefined hc' => exact absurd (hc.symm.trans hc') nofun
    | composite hc' hfields =>
      obtain rfl := Option.some.inj (hc.symm.trans hc')
      exact sizeBy_congr fun f hf => ih f hf (hfields f hf)
  | _ =>
    cases h'
    rfl

/-- A type has one size. -/
theorem Measures.unique {size size' : Option Nat} (h : g.Measures t size)
    (h' : g.Measures t size') : size = size' :=
  Measured.unique h h'

theorem fieldsSize_eq_ok {c : Composite} {sizes : Ty → Except Fault (Option Nat)}
    {size : Ty → Option Nat} {fields : List Field}
    (h : ∀ f ∈ fields, sizes f.type = .ok (size f.type)) (start : Nat) :
    fieldsSize c sizes start fields = .ok (fields.foldlM (fun n f => do
      let fieldEnd ← fieldEnd? c f (← size f.type)
      return max n fieldEnd) start) := by
  induction fields generalizing start with
  | nil => rfl
  | cons f rest ih =>
    obtain ⟨hfirst, hrest⟩ := List.forall_mem_cons.mp h
    rw [fieldsSize, hfirst, ok_bind, List.foldlM_cons]
    cases hsize : size f.type with
    | none => rfl
    | some n =>
      cases hend : fieldEnd? c f n with
      | none => simp [hend, Except.pure, pure]
      | some fieldEnd => simpa [hend] using ih hrest (max start fieldEnd)

/-- **Sizes come to an end.** With room enough a type is measured, and what comes out is derived. -/
theorem measures_sizeWithin (hacyclic : g.Acyclic) {depth : Nat} (h : g.Fits depth t) :
    ∃ size, g.sizeWithin depth t = .ok size ∧ g.Measures t size := by
  induction depth generalizing t with
  | zero => exact absurd h.pos (Nat.lt_irrefl 0)
  | succ depth ih =>
    have hresolved := h.resolve hacyclic
    unfold Measures sizeWithin sizeFrom
    cases ht : g.resolve t with
    | array element length =>
      rw [ht] at hresolved
      obtain ⟨size, hsize, hmeasures⟩ := ih hresolved.element
      refine ⟨_, ?_, .array hmeasures⟩
      dsimp only
      unfold Ty.arraySize?
      cases (Ty.array element length).length? with
      | none => rfl
      | some n =>
        simp only [hsize, Option.bind_eq_bind, Option.bind_some]
        split <;> rfl
    | composite key name =>
      rw [ht] at hresolved
      dsimp only
      cases hc : g.composite? key with
      | none => exact ⟨none, rfl, .undefined hc⟩
      | some c =>
        let sizes (t : Ty) : Option Nat := (g.sizeWithin depth t).toOption.getD none
        have hfields (f : Field) (hf : f ∈ c.fields) :
            g.sizeWithin depth f.type = .ok (sizes f.type) ∧ g.Measures f.type (sizes f.type) := by
          obtain ⟨size, hsize, hmeasures⟩ := ih (hresolved.field hacyclic hc hf)
          have hsizes : sizes f.type = size := congrArg (·.toOption.getD none) hsize
          rw [hsizes]
          exact ⟨hsize, hmeasures⟩
        exact ⟨c.sizeBy sizes, fieldsSize_eq_ok (fun f hf => (hfields f hf).1) 0,
          .composite hc fun f hf => (hfields f hf).2⟩
    | _ => exact ⟨_, rfl, by constructor⟩

/-- In an acyclic table every type is measured to the end. -/
theorem sizing_eq_ok (hacyclic : g.Acyclic) (t : Ty) : g.sizing t = .ok (g.size? t) := by
  obtain ⟨size, hsize, -⟩ := measures_sizeWithin hacyclic (fits_nesting (t := t) (Nat.lt_succ_self _))
  have hsizing : g.sizing t = .ok size := hsize
  rw [size?_of_sizing hsizing, hsizing]

theorem measures_size? (hacyclic : g.Acyclic) (t : Ty) : g.Measures t (g.size? t) := by
  obtain ⟨size, hsize, hmeasures⟩ :=
    measures_sizeWithin hacyclic (fits_nesting (t := t) (Nat.lt_succ_self _))
  rwa [size?_of_sizing hsize]

/-- What is derived is what is computed. -/
theorem measures_iff (hacyclic : g.Acyclic) {size : Option Nat} :
    g.Measures t size ↔ g.size? t = size :=
  ⟨fun h => (measures_size? hacyclic t).unique h, fun h => h ▸ measures_size? hacyclic t⟩

/-! ### Structures -/

/-- The size of a composite is that of its fields together. -/
theorem Measured.sizeBy (hacyclic : g.Acyclic) {key : Nat} {name : String} {c : Composite}
    {size : Option Nat} (h : g.Measured (.composite key name) size)
    (hc : g.composite? key = some c) : size = c.sizeBy g.size? := by
  cases h with
  | undefined hc' => exact absurd (hc.symm.trans hc') nofun
  | composite hc' hfields =>
    obtain rfl := Option.some.inj (hc.symm.trans hc')
    exact sizeBy_congr fun f hf => ((measures_iff hacyclic).mp (hfields f hf)).symm

theorem sizeBy_eq_foldlM_max (c : Composite) (sizes : Ty → Option Nat) :
    c.sizeBy sizes = c.fields.foldlM
      (fun size f => ((sizes f.type).bind (fieldEnd? c f)).map (max size)) 0 := by
  unfold Composite.sizeBy
  congr 1
  funext size f
  cases sizes f.type with
  | none => rfl
  | some n => exact Option.map_eq_bind.symm

/-- A greatest value over a list, where all elements have one. -/
theorem foldlM_max_eq_some {α : Type} {value : α → Option Nat} {l : List α} {start n : Nat}
    (h : l.foldlM (fun size x => (value x).map (max size)) start = some n) :
    start ≤ n ∧ (∀ x ∈ l, ∃ m ≤ n, value x = some m) ∧ (n = start ∨ ∃ x ∈ l, value x = some n) := by
  induction l generalizing start with
  | nil =>
    obtain rfl : start = n := Option.some.inj h
    exact ⟨Nat.le_refl _, by simp, .inl rfl⟩
  | cons x rest ih =>
    rw [List.foldlM_cons] at h
    obtain ⟨size, hx, hrest⟩ := Option.bind_eq_some_iff.mp h
    obtain ⟨m, hm, rfl⟩ := Option.map_eq_some_iff.mp hx
    obtain ⟨hle, hall, hlast⟩ := ih hrest
    refine ⟨by omega, List.forall_mem_cons.mpr ⟨⟨m, by omega, hm⟩, hall⟩, ?_⟩
    rcases hlast with rfl | ⟨y, hy, hvalue⟩
    · rcases Nat.le_total start m with hstart | hstart
      · rw [Nat.max_eq_right hstart]
        exact .inr ⟨x, List.mem_cons_self, hm⟩
      · exact .inl (Nat.max_eq_left hstart)
    · exact .inr ⟨y, List.mem_cons_of_mem _ hy, hvalue⟩

/-- So far into its structure, a field is over: at its offset plus its size. -/
def EndsAt (g : Globals) (f : Field) (n : Nat) : Prop :=
  ∃ start size, f.offset = some start ∧ 0 ≤ start ∧ g.size? f.type = some size ∧
    start.toInt + size = n

/-- The ends of all fields are words. -/
def EndsFit (g : Globals) (c : Composite) : Prop :=
  ∀ f ∈ c.fields, ∀ start size, f.offset = some start → g.size? f.type = some size →
    start.toInt + size < UInt64.size

theorem endsAt_of_fieldEnd? {c : Composite} (hstruct : c.isUnion = false) (hfit : g.EndsFit c)
    {f : Field} (hf : f ∈ c.fields) {size n : Nat} (hsize : g.size? f.type = some size)
    (h : fieldEnd? c f size = some n) : g.EndsAt f n := by
  unfold fieldEnd? at h
  rw [hstruct, if_neg (by decide)] at h
  split at h
  next start hstart =>
    split at h
    · cases h
    next hle =>
      have hnonneg := Int64.le_iff_toInt_le.mp (Int64.not_lt.mp hle)
      rw [Int64.toInt_zero] at hnonneg
      have hword := hfit f hf start size hstart hsize
      rw [Nat.mod_eq_of_lt (by omega)] at h
      obtain rfl := Option.some.inj h
      exact ⟨start, size, hstart, Int64.not_lt.mp hle, hsize, by omega⟩
  next => cases h

/-- **Structures are as long as their fields need.** Where no end overflows, every field of a
structure of known size has an offset and is over within it, and if there are fields, one of them is
over exactly at its end. -/
theorem structure_fields (hacyclic : g.Acyclic) {key : Nat} {name : String} {c : Composite}
    {n : Nat} (ht : g.resolve t = .composite key name) (hc : g.composite? key = some c)
    (hstruct : c.isUnion = false) (hfit : g.EndsFit c) (hn : g.size? t = some n) :
    (∀ f ∈ c.fields, ∃ m ≤ n, g.EndsAt f m) ∧ (c.fields ≠ [] → ∃ f ∈ c.fields, g.EndsAt f n) := by
  have hmeasured : g.Measured (.composite key name) (some n) := by
    have hmeasures := (measures_iff hacyclic).mpr hn
    rwa [Measures, ht] at hmeasures
  have hsize := hmeasured.sizeBy hacyclic hc
  rw [sizeBy_eq_foldlM_max] at hsize
  obtain ⟨-, hall, hlast⟩ := foldlM_max_eq_some hsize.symm
  have hends {f : Field} (hf : f ∈ c.fields) {m : Nat}
      (h : (g.size? f.type).bind (fieldEnd? c f) = some m) : g.EndsAt f m := by
    obtain ⟨size, hsize, hend⟩ := Option.bind_eq_some_iff.mp h
    exact endsAt_of_fieldEnd? hstruct hfit hf hsize hend
  refine ⟨fun f hf => ?_, fun hne => ?_⟩
  · obtain ⟨m, hle, hm⟩ := hall f hf
    exact ⟨m, hle, hends hf hm⟩
  · rcases hlast with rfl | ⟨f, hf, hn⟩
    · -- all fields are empty and at the start, so the first one is as good as any
      obtain ⟨f, hf⟩ := List.exists_mem_of_ne_nil _ hne
      obtain ⟨m, hle, hm⟩ := hall f hf
      obtain rfl : m = 0 := Nat.le_zero.mp hle
      exact ⟨f, hf, hends hf hm⟩
    · exact ⟨f, hf, hends hf hn⟩

end Globals

end FactLift
