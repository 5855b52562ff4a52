import FactLift.Lift.Function
import FactLift.Proofs.C.Placeholder
import FactLift.Proofs.Lift.Attempts

/-! The address that an access through a pointer names.

Moving a pointer by a constant counts in units: bytes in the low-level form, elements of the target in
C. An lvalue then names the value of its pointer and the displacement of its offset. The low-level
form of an access at `c` bytes from a pointer names `c` bytes from it. The high-level form does so
where the distance is followed into the target type; where it is added to the pointer instead, the
bytes are counted as elements (`liftLval_names_scaled`). -/

namespace FactLift

open C

/-! ### Addresses -/

namespace C

/-- The value of a pointer, with a unit for each pointer that is moved. What is not a pointer moved by
a constant has a value that is given. -/
def Expr.pointerValue (unit : Expr → Int) (given : Expr → Int) : Expr → Int
  | .binary .plus p (.int k _) => p.pointerValue unit given + k.toInt * unit p
  | e => given e

/-- The address that an lvalue names: the value of its pointer, and its offset into the target. -/
def Lval.Names (g : Globals) (unit : Expr → Int) (given : Expr → Int) : Lval → Int → Prop
  | .mem p offset, a =>
    ∃ d, offset.Displaces g (LiftM.targetType? g p) d ∧ a = p.pointerValue unit given + d
  | .var _ _, _ => False

theorem Lval.Names.unique {g : Globals} {unit given : Expr → Int} {l : Lval} {a a' : Int}
    (h : l.Names g unit given a) (h' : l.Names g unit given a') : a = a' := by
  cases l with
  | var => cases h
  | mem p offset =>
    obtain ⟨d, hd, rfl⟩ := h
    obtain ⟨d', hd', rfl⟩ := h'
    rw [hd.unique hd']

/-- An lvalue names an address, and as a word it is this one. -/
def Lval.NamesWord (g : Globals) (unit : Expr → Int) (given : Expr → Int) (l : Lval)
    (word : Int64) : Prop :=
  (∃ a, l.Names g unit given a) ∧ ∀ a, l.Names g unit given a → Int64.ofInt a = word

theorem Lval.Names.word {g : Globals} {unit given : Expr → Int} {l : Lval} {a : Int}
    (h : l.Names g unit given a) : l.NamesWord g unit given (Int64.ofInt a) :=
  ⟨⟨a, h⟩, fun _ h' => by rw [h.unique h']⟩

theorem Lval.NamesWord.unique {g : Globals} {unit given : Expr → Int} {l : Lval}
    {word word' : Int64} (h : l.NamesWord g unit given word) (h' : l.NamesWord g unit given word') :
    word = word' := by
  obtain ⟨a, ha⟩ := h.1
  exact (h.2 a ha).symm.trans (h'.2 a ha)

end C

/-- The unit of byte arithmetic. -/
def byteUnit (_ : Expr) : Int := 1

/-- The unit of C: the size of the target, and a byte where it has none. -/
def elementUnit (g : Globals) (p : Expr) : Int :=
  (((LiftM.targetType? g p).bind g.elementSize?).getD 1 : Nat)

/-- Nothing is simplified in a chain of constants. -/
theorem Sym.Offset.settle_of_constant? : ∀ {o : Sym.Offset} {c : Int64}, o.constant? = some c →
    o.settle = o
  | .none, _, _ => by rw [settle]
  | .const v sub, _, h => by
    obtain ⟨c, hc, -⟩ := Option.map_eq_some_iff.mp h
    rw [settle, settle_of_constant? hc]

namespace LiftM

/-! ### Constant offsets -/

variable {site : Site} {s : Session}

theorem read_bind {α : Type} (f : Site → LiftM α) :
    ((read : LiftM Site) >>= f) site s = f site site s := rfl

/-- A path that brings no placeholder lands. -/
theorem along_lands {host : Ty} {bytes : Int64} {rest : Ty → LiftM Offset}
    (h : (along host bytes rest site s).1.reasons = []) :
    ∃ landing, (s.globals.navigate host bytes).landing = .ok landing ∧
      (along host bytes rest site s).1 =
        (s.globals.navigate host bytes).wrap (rest landing site s).1 := by
  rw [along, bind_eq, followed_eq] at h ⊢
  unfold Globals.navigate at h ⊢
  cases hpath : s.globals.navigation host bytes with
  | error fault =>
    rw [hpath] at h
    cases h
  | ok path =>
    rw [hpath] at h
    dsimp only [Except.toOption, Option.getD, Fault.of?] at h ⊢
    rw [Session.stop_none] at h ⊢
    cases hlanding : path.landing with
    | ok landing => exact ⟨landing, rfl, rfl⟩
    | error reason =>
      rw [hlanding] at h
      have hreasons : (path.wrap (.unresolved reason)).reasons = [] := h
      rw [Path.reasons_wrap, Offset.reasons] at hreasons
      cases hreasons

/-- Following bytes into a type adds them to the displacement of what comes after. -/
theorem along_displaces (hg : s.globals.DistinctFields) {host : Ty} {bytes c : Int64}
    {rest : Ty → LiftM Offset}
    (hrest : ∀ landing, (rest landing site s).1.reasons = [] →
      ∃ d, (rest landing site s).1.Displaces s.globals (some landing) d ∧ Int64.ofInt d = c)
    (h : (along host bytes rest site s).1.reasons = []) :
    ∃ d, (along host bytes rest site s).1.Displaces s.globals (some host) d ∧
      Int64.ofInt d = bytes + c := by
  obtain ⟨landing, hlanding, hpath⟩ := along_lands h
  rw [hpath] at h ⊢
  rw [Path.reasons_wrap] at h
  obtain ⟨d, hd, rfl⟩ := hrest landing h
  exact s.globals.navigate_leads hg host bytes landing hlanding _ d hd

/-- A constant is followed into a type that is known. -/
theorem liftOffset_const (v : Int64) (sub : Sym.Offset) (host : Ty) :
    liftOffset (.const v sub) (some host) site s =
      along (s.globals.resolve host) v (fun landing => liftOffset sub (some landing)) site s := by
  rw [liftOffset, globals_bind]

/-- A chain of constants that brings no placeholder is as many bytes as the constants are. -/
theorem liftOffset_displaces (hg : s.globals.DistinctFields) {o : Sym.Offset} {c : Int64}
    (hc : o.constant? = some c) (host : Option Ty) (h : (liftOffset o host site s).1.reasons = []) :
    ∃ d, (liftOffset o host site s).1.Displaces s.globals host d ∧ Int64.ofInt d = c := by
  induction o using Sym.Offset.constant?.induct generalizing c host with
  | case1 =>
    rw [liftOffset]
    exact ⟨0, .none host, by simpa [Sym.Offset.constant?] using hc⟩
  | case2 v sub ih =>
    obtain ⟨c', hc', rfl⟩ := Option.map_eq_some_iff.mp hc
    cases host with
    | some host =>
      rw [liftOffset_const] at h ⊢
      obtain ⟨d, hd, hword⟩ := along_displaces hg (fun landing => ih hc' (some landing)) h
      exact ⟨d, hd.through (s.globals.denotes_resolve host), hword⟩
    | none =>
      rw [liftOffset] at h ⊢
      split at h
      next hv =>
        rw [if_pos hv]
        subst hv
        rw [Int64.zero_add]
        exact ih hc' none h
      next => cases h
  | case3 o hnone hconst =>
    cases o with
    | none => exact absurd rfl hnone
    | const v sub => exact absurd rfl (hconst v sub)
    | _ => cases hc

/-! ### Dereferencing -/

/-- Whether a distance from a pointer is added to it, and so is counted in elements: it is not zero,
and not followed into a composite. -/
def countsElements (cfg : Config) (target : Ty) : Sym.Offset → Bool
  | .const v _ => v ≠ 0 && !(target.key?.isSome && cfg.recoverFields)
  | _ => false

/-- A constant distance is followed into a composite, left out if it is zero, or added. -/
theorem liftDeref_const {p : Expr} {t : Ty} (ht : targetType? s.globals p = some t) (v : Int64)
    (sub : Sym.Offset) :
    (liftDeref p (.const v sub) site s).1 =
      if t.key?.isSome && site.config.recoverFields then
        .mem p (along t v (fun landing => liftOffset sub (some landing)) site s).1
      else if v = 0 then .mem p (liftOffset sub (some t) site s).1
      else .mem (.binary .plus p (.int v .int)) (liftOffset sub none site s).1 := by
  rw [liftDeref, globals_bind]
  dsimp only
  rw [read_bind, ht, Option.filter_some]
  by_cases hrecovered : (t.key?.isSome && site.config.recoverFields) = true
  · rw [if_pos hrecovered, if_pos hrecovered]
    rfl
  · rw [if_neg hrecovered, if_neg hrecovered]
    by_cases hv : v = 0
    · rw [if_pos hv, if_pos hv]
      rfl
    · rw [if_neg hv, if_neg hv]
      rfl

theorem liftDeref_names {p : Expr} {t : Ty} {n : Nat} {o : Sym.Offset} {c : Int64}
    (hg : s.globals.DistinctFields) (ht : targetType? s.globals p = some t)
    (hn : s.globals.elementSize? t = some n) (hc : o.constant? = some c)
    (h : (liftDeref p o site s).1.reasons = []) (given : Expr → Int) :
    (liftDeref p o site s).1.NamesWord s.globals (elementUnit s.globals) given
      (Int64.ofInt (p.pointerValue (elementUnit s.globals) given) +
        if countsElements site.config t o then c * Int64.ofNat n else c) := by
  suffices hnames : ∃ a, (liftDeref p o site s).1.Names s.globals (elementUnit s.globals) given a ∧
      Int64.ofInt a = Int64.ofInt (p.pointerValue (elementUnit s.globals) given) +
        if countsElements site.config t o then c * Int64.ofNat n else c by
    obtain ⟨a, ha, hword⟩ := hnames
    exact hword ▸ ha.word
  cases o with
  | none =>
    obtain rfl : 0 = c := Option.some.inj hc
    rw [liftDeref]
    refine ⟨_, ⟨0, .none _, rfl⟩, ?_⟩
    simp [countsElements]
  | const v sub =>
    obtain ⟨c', hc', rfl⟩ := Option.map_eq_some_iff.mp hc
    rw [liftDeref_const ht] at h ⊢
    split at h
    next hrecovered =>
      -- the distance is followed into the target
      rw [if_pos hrecovered]
      obtain ⟨-, h⟩ := List.append_eq_nil_iff.mp h
      obtain ⟨d, hd, hword⟩ :=
        along_displaces hg (fun landing => liftOffset_displaces hg hc' (some landing)) h
      refine ⟨_, ⟨d, ht ▸ hd, rfl⟩, ?_⟩
      rw [Int64.ofInt_add, hword]
      simp [countsElements, hrecovered]
    next hrecovered =>
      rw [if_neg hrecovered]
      split at h
      next hv =>
        rw [if_pos hv]
        obtain ⟨-, h⟩ := List.append_eq_nil_iff.mp h
        obtain ⟨d, hd, hword⟩ := liftOffset_displaces hg hc' (some t) h
        refine ⟨_, ⟨d, ht ▸ hd, rfl⟩, ?_⟩
        rw [Int64.ofInt_add, hword]
        simp [countsElements, hv]
      next hv =>
        -- the distance is added to the pointer, and what follows is nothing
        rw [if_neg hv]
        obtain ⟨-, h⟩ := List.append_eq_nil_iff.mp h
        obtain ⟨d, hd, rfl⟩ := liftOffset_displaces hg hc' none h
        generalize (liftOffset sub none site s).1 = offset at hd
        cases hd
        have hunit : elementUnit s.globals p = n := by simp [elementUnit, ht, hn]
        refine ⟨_, ⟨0, .none _, rfl⟩, ?_⟩
        rw [Expr.pointerValue, hunit, Int64.ofInt_add, Int64.ofInt_add, Int64.ofInt_mul,
          Int64.ofInt_toInt, Int64.ofInt_eq_ofNat]
        simp [countsElements, hv, hrecovered]
  | _ => cases hc

/-! ### Accesses through a pointer -/

section Access

variable {name : String} {number : Int64} {bv : Sym.Variable} {size : Nat} {o : Sym.Offset}
  {c : Int64}

/-- A location that a pointer leads to is dereferenced from there, whatever the hint. -/
theorem liftLval_pointer (hnumber : number ≠ -1) (hint : Option Sym.Expr) :
    liftLval ⟨name, number, .memory (.pointer bv) size o⟩ hint site s =
      liftDeref (liftVariable bv.settle site s).1 o.settle site (liftVariable bv.settle site s).2 := by
  have hplace : liftLvalue (Sym.Variable.settle ⟨name, number, .memory (.pointer bv) size o⟩) =
      (do
        let p ← liftVariable bv.settle
        return .ok (← liftDeref p o.settle)) := by
    rw [Sym.Variable.settle, Sym.Meaning.settle, Sym.Base.settle, liftLvalue,
      if_neg (by simpa using hnumber), liftPlace]
  rw [liftLval, hplace]
  cases hint <;> rfl

theorem lowerAddress_some (name : String) (p : Expr) (c : Int64) :
    lowerAddress name p (some c) = pure (if c = 0 then p else .binary .plus p (.int c .int)) := by
  by_cases h : c = 0
  · subst h
    rfl
  · rw [if_neg h]
    unfold lowerAddress
    split
    next heq => exact absurd (Option.some.inj heq) h
    next heq => rw [Option.some.inj heq]
    next heq => cases heq

theorem lowerLval_pointer (hnumber : number ≠ -1) (hc : o.constant? = some c) :
    (lowerLval ⟨name, number, .memory (.pointer bv) size o⟩ site s).1 =
      .mem (if c = 0 then (lowerVariable bv site s).1
        else .binary .plus (lowerVariable bv site s).1 (.int c .int)) .none := by
  rw [lowerLval, lowerPlace, if_neg (by simpa using hnumber)]
  dsimp only
  rw [hc]
  simp only [lowerAddress_some]
  rfl

theorem lowerLval_names (hnumber : number ≠ -1) (hc : o.constant? = some c) (g : Globals)
    (given : Expr → Int) :
    (lowerLval ⟨name, number, .memory (.pointer bv) size o⟩ site s).1.NamesWord g byteUnit given
      (Int64.ofInt ((lowerVariable bv site s).1.pointerValue byteUnit given) + c) := by
  rw [lowerLval_pointer hnumber hc]
  generalize (lowerVariable bv site s).1 = low
  have hword : Int64.ofInt (low.pointerValue byteUnit given) + c =
      Int64.ofInt ((if c = 0 then low else .binary .plus low (.int c .int)).pointerValue byteUnit
        given + 0) := by
    by_cases hzero : c = 0
    · simp [hzero]
    · rw [if_neg hzero, Expr.pointerValue]
      simp [byteUnit]
  rw [hword]
  exact Lval.Names.word ⟨0, .none _, rfl⟩

/-- **The two forms of an access.** From a pointer whose target has a size, at a distance made of
constants: the low-level form names the pointer moved by the distance in bytes. So does the
high-level form, if it has no placeholder, unless the distance is added to the pointer: C then moves
it by as many elements. -/
theorem liftLval_names_scaled {hint : Option Sym.Expr} {p : Expr} {s' : Session} {t : Ty} {n : Nat}
    (hnumber : number ≠ -1) (hc : o.constant? = some c)
    (hp : liftVariable bv.settle site s = (p, s')) (ht : targetType? s'.globals p = some t)
    (hn : s'.globals.size? t = some n) (hpos : 0 < n) (hg : s'.globals.DistinctFields)
    (hresolved :
      (liftLval ⟨name, number, .memory (.pointer bv) size o⟩ hint site s).1.reasons = [])
    (given : Expr → Int) :
    (liftLval ⟨name, number, .memory (.pointer bv) size o⟩ hint site s).1.NamesWord s'.globals
        (elementUnit s'.globals) given
        (Int64.ofInt (p.pointerValue (elementUnit s'.globals) given) +
          if countsElements site.config t o then c * Int64.ofNat n else c) ∧
      (lowerLval ⟨name, number, .memory (.pointer bv) size o⟩ site s).1.NamesWord s'.globals byteUnit
        given (Int64.ofInt ((lowerVariable bv site s).1.pointerValue byteUnit given) + c) := by
  constructor
  · rw [liftLval_pointer hnumber, hp, Sym.Offset.settle_of_constant? hc] at hresolved ⊢
    exact liftDeref_names hg ht (by simp [Globals.elementSize?, hn, hpos]) hc hresolved given
  · exact lowerLval_names hnumber hc _ given

end Access

/-! ### A field and an element -/

/-- A session for a function with one parameter in a register: a pointer. -/
def pointerSession (g : Globals) (target : Ty) : Session :=
  Session.enter { globals := g } "f" [⟨"p", .pointer target, .register "R0"⟩]

def pointerParameter (target : Ty) : Expr :=
  .ofSymbol { name := "p", type := some (.pointer target), parameter := some 0 }

/-- What the register of the parameter holds at entry. -/
def pointerAtEntry : Sym.Variable :=
  ⟨"R0_in", 2, .fixed (.initialRegister "R0" 0)⟩

/-- The location at a number of bytes from the parameter. -/
def pastPointer (bytes : Int64) : Sym.Variable :=
  ⟨"v", 1, .memory (.pointer pointerAtEntry) 4 (.const bytes .none)⟩

theorem liftVariable_pointerAtEntry (g : Globals) (target : Ty) (site : Site) :
    liftVariable pointerAtEntry.settle site (pointerSession g target) =
      (pointerParameter target, pointerSession g target) := by
  have hsettle : pointerAtEntry.settle = pointerAtEntry := by
    rw [pointerAtEntry, Sym.Variable.settle, Sym.Meaning.settle, Sym.FixedValue.settle]
  rw [hsettle, pointerAtEntry, liftVariable, if_neg (by decide), liftFixed]
  rfl

/-- A structure of two integers. -/
def pairGlobals : Globals where
  composites := (∅ : Std.TreeMap Nat Composite).insert 1
    ⟨"pair", 1, false, [⟨"first", .int .int, some 0⟩, ⟨"second", .int .int, some 4⟩]⟩

theorem composite?_pairGlobals {key : Nat} {c : Composite} (h : pairGlobals.composite? key = some c) :
    c = ⟨"pair", 1, false, [⟨"first", .int .int, some 0⟩, ⟨"second", .int .int, some 4⟩]⟩ := by
  rw [Globals.composite?, pairGlobals, Std.TreeMap.getElem?_insert] at h
  split at h
  · exact (Option.some.inj h).symm
  · simp at h

theorem zero_le_offset_pairGlobals {key : Nat} {c : Composite} {f : Field} {start : Int64}
    (hc : pairGlobals.composite? key = some c) (hf : f ∈ c.fields) (hstart : f.offset = some start) :
    0 ≤ start := by
  rw [composite?_pairGlobals hc, List.mem_cons, List.mem_singleton] at hf
  rcases hf with rfl | rfl
  · obtain rfl := Option.some.inj hstart
    decide
  · obtain rfl := Option.some.inj hstart
    decide

theorem distinctFields_pairGlobals : pairGlobals.DistinctFields := by
  intro key c hc
  rw [composite?_pairGlobals hc]
  decide

/-- The second field of a structure at 0x2000: both forms name it. -/
theorem liftLval_names_scaled_on_field :
    let s := pointerSession pairGlobals (.composite 1 "pair")
    (liftLval (pastPointer 4) none ⟨{}, 0x1000, []⟩ s).1.NamesWord pairGlobals
        (elementUnit pairGlobals) (fun _ => 0x2000) 0x2004 ∧
      (lowerLval (pastPointer 4) ⟨{}, 0x1000, []⟩ s).1.NamesWord pairGlobals byteUnit
        (fun _ => 0x2000) 0x2004 := by
  intro s
  have hsize : pairGlobals.size? (.composite 1 "pair") = some 8 := by decide
  have hresolved : (liftLval (pastPointer 4) none ⟨{}, 0x1000, []⟩ s).1.reasons = [] := by
    decide
  exact liftLval_names_scaled (by decide) rfl (liftVariable_pointerAtEntry _ _ _) rfl hsize
    (by decide) distinctFields_pairGlobals hresolved fun _ => 0x2000

/-- Eight bytes from a pointer to integers of four, at 0x2000: the high-level form has no placeholder,
and C takes it for eight integers. The low-level form names 0x2008. -/
theorem liftLval_names_element :
    let s := pointerSession {} (.int .int)
    let l := (liftLval (pastPointer 8) none ⟨{}, 0x1000, []⟩ s).1
    liftVariable pointerAtEntry.settle ⟨{}, 0x1000, []⟩ s = (pointerParameter (.int .int), s) ∧
      targetType? {} (pointerParameter (.int .int)) = some (.int .int) ∧
      Globals.size? {} (.int .int) = some 4 ∧ Globals.DistinctFields {} ∧ l.reasons = [] ∧
      (lowerLval (pastPointer 8) ⟨{}, 0x1000, []⟩ s).1.NamesWord {} byteUnit (fun _ => 0x2000) 0x2008 ∧
      l.NamesWord {} (elementUnit {}) (fun _ => 0x2000) 0x2020 ∧
      ¬ l.NamesWord {} (elementUnit {}) (fun _ => 0x2000) 0x2008 := by
  intro s l
  have hp := liftVariable_pointerAtEntry {} (.int .int) ⟨{}, 0x1000, []⟩
  have hsize : Globals.size? {} (.int .int) = some 4 := by decide
  have hunit : Globals.elementSize? {} (.int .int) = some 4 := by simp [Globals.elementSize?, hsize]
  have hfields : Globals.DistinctFields {} := fun key c hc => by simp [Globals.composite?] at hc
  have hresolved : l.reasons = [] := by decide
  have hl : l = (liftDeref (pointerParameter (.int .int)) (.const 8 .none) ⟨{}, 0x1000, []⟩ s).1 := by
    show (liftLval (pastPointer 8) none ⟨{}, 0x1000, []⟩ s).1 = _
    rw [pastPointer, liftLval_pointer (by decide), hp,
      Sym.Offset.settle_of_constant? (show Sym.Offset.constant? _ = some 8 from rfl)]
  have hnames : l.NamesWord {} (elementUnit {}) (fun _ => 0x2000) 0x2020 := by
    rw [hl] at hresolved ⊢
    exact liftDeref_names hfields rfl hunit rfl hresolved fun _ => 0x2000
  refine ⟨hp, rfl, hsize, hfields, hresolved, ?_, hnames, fun hwrong => ?_⟩
  · exact lowerLval_names (o := .const 8 .none) (c := 8) (show (1 : Int64) ≠ -1 by decide) rfl {}
      fun _ => 0x2000
  · exact absurd (hnames.unique hwrong) (by decide)

end LiftM

end FactLift
