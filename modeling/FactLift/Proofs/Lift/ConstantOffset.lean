import FactLift.Proofs.Lift.Deref
import FactLift.Proofs.Symbols.ByteExact

/-! Constant offsets into memory of a known type.

A chain of constants is followed into the type one constant after the other, each from where the one
before it landed. If this brings no placeholder, the fields and indices of the result are exactly as
many bytes as the constants add up to (`liftMemoryOffset_exact`). -/

namespace FactLift

open C

/-! ### The sum of a chain -/

/-- The constants of a chain that has nothing else, added up as integers. -/
def Sym.Offset.total? : Sym.Offset → Option Int
  | .none => some 0
  | .const v sub => sub.total?.map (v.toInt + ·)
  | _ => Option.none

/-- As a word, the sum is what the chain is taken for. -/
theorem Sym.Offset.constant?_of_total? {o : Sym.Offset} {total : Int} (h : o.total? = some total) :
    o.constant? = some (Int64.ofInt total) := by
  induction o using Sym.Offset.total?.induct generalizing total with
  | case1 =>
    obtain rfl : 0 = total := Option.some.inj h
    rfl
  | case2 v sub ih =>
    obtain ⟨rest, hrest, rfl⟩ := Option.map_eq_some_iff.mp h
    rw [constant?, ih hrest, Int64.ofInt_add, Int64.ofInt_toInt]
    rfl
  | case3 o hnone hconst =>
    cases o with
    | none => exact absurd rfl hnone
    | const v sub => exact absurd rfl (hconst v sub)
    | _ => cases h

/-! ### The types inside a type -/

namespace Globals

variable {g : Globals} {S : Ty → Prop}

/-- Types that have those behind their names, their elements and their fields among them have all
that stands inside them among them. -/
theorem Inside.mem_of_closed (hnamed : ∀ name u, S (.named name) → g.typedefs[name]? = some u → S u)
    (helement : ∀ e l, S (.array e l) → S e)
    (hfield : ∀ key name c, S (.composite key name) → g.composite? key = some c →
      ∀ f ∈ c.fields, S f.type) {t host : Ty} (h : g.Inside t host) (hhost : S host) : S t := by
  have hwithin : ∀ n t, S t → S (g.resolveWithin n t) := by
    intro n
    induction n with
    | zero => exact fun _ ht => ht
    | succ n ih =>
      intro t ht
      unfold resolveWithin
      split
      · exact ht
      next limit name hlimit =>
        cases hlimit
        split
        next u hu => exact ih u (hnamed name u ht hu)
        · exact ht
      · exact ht
  induction h with
  | self => exact hhost
  | named hu _ ih =>
    obtain ⟨n, rfl⟩ := hu
    exact ih (hwithin n _ hhost)
  | element _ ih => exact ih (helement _ _ hhost)
  | field hc hf _ ih => exact ih (hfield _ _ _ hhost hc _ hf)

end Globals

namespace LiftM

variable {site : Site} {s : Session}

/-! ### Chains of constants -/

/-- Following bytes into a type adds exactly them to the displacement of what comes after. -/
theorem along_exact (hnames : s.globals.DistinctFields) (hforward : s.globals.ForwardFields)
    {host : Ty} (hsizes : s.globals.SizesFit host) {bytes : Int64} {rest : Ty → LiftM Offset}
    {d : Int}
    (hrest : ∀ landing, s.globals.SizesFit landing → (rest landing site s).1.reasons = [] →
      (rest landing site s).1.Displaces s.globals (some landing) d)
    (h : (along host bytes rest site s).1.reasons = []) :
    (along host bytes rest site s).1.Displaces s.globals (some host) (bytes.toInt + d) := by
  obtain ⟨landing, hlanding, hpath⟩ := along_lands h
  rw [hpath] at h ⊢
  rw [Path.reasons_wrap] at h
  obtain ⟨hinside, hleads⟩ := Globals.navigate_exact hnames hforward hsizes bytes landing hlanding
  exact hleads _ d (hrest landing (hsizes.inside hinside) h)

theorem liftOffset_exact (hnames : s.globals.DistinctFields) (hforward : s.globals.ForwardFields)
    {o : Sym.Offset} {total : Int} (ho : o.total? = some total) (host : Ty)
    (hsizes : s.globals.SizesFit host) (h : (liftOffset o (some host) site s).1.reasons = []) :
    (liftOffset o (some host) site s).1.Displaces s.globals (some host) total := by
  induction o using Sym.Offset.total?.induct generalizing total host with
  | case1 =>
    obtain rfl : 0 = total := Option.some.inj ho
    rw [liftOffset]
    exact .none _
  | case2 v sub ih =>
    obtain ⟨rest, hrest, rfl⟩ := Option.map_eq_some_iff.mp ho
    have hresolve := s.globals.denotes_resolve host
    have hresolved : s.globals.SizesFit (s.globals.resolve host) :=
      hsizes.inside (.named hresolve .self)
    rw [liftOffset_const] at h ⊢
    exact (along_exact hnames hforward hresolved (ih hrest) h).through hresolve
  | case3 o hnone hconst =>
    cases o with
    | none => exact absurd rfl hnone
    | const v sub => exact absurd rfl (hconst v sub)
    | _ => cases ho

/-- **The exact byte.** Constants that are followed into a type without a placeholder lead as many
bytes into it as they add up to. -/
theorem liftMemoryOffset_exact (hnames : s.globals.DistinctFields)
    (hforward : s.globals.ForwardFields) {o : Sym.Offset} {total : Int} (ho : o.total? = some total)
    {host : Ty} (hsizes : s.globals.SizesFit host)
    (hresolved : (liftMemoryOffset o (some host) site s).1.reasons = []) (d : Int) :
    (liftMemoryOffset o (some host) site s).1.Displaces s.globals (some host) d ↔ d = total := by
  have hsettle : liftMemoryOffset o (some host) = liftOffset o (some host) := by
    rw [liftMemoryOffset, Sym.Offset.settle_of_constant? (Sym.Offset.constant?_of_total? ho)]
  rw [hsettle] at hresolved ⊢
  have hexact := liftOffset_exact hnames hforward ho host hsizes hresolved
  exact ⟨fun hd => hd.unique hexact, fun hd => hd ▸ hexact⟩

/-! ### Back into a row before -/

/-- Two pairs of integers. -/
def rowType : Ty := .array (.composite 1 "pair") (some (.int 2 .int))

/-- Pairs, and a name for a row of two of them. -/
def rowGlobals : Globals :=
  { pairGlobals with typedefs := (∅ : Std.TreeMap String Ty).insert "row" rowType }

def gridType : Ty := .array (.named "row") none

theorem forwardFields_rowGlobals : rowGlobals.ForwardFields :=
  fun _ _ hc _ hf _ => zero_le_offset_pairGlobals hc hf

def gridTypes : List Ty := [gridType, .named "row", rowType, .composite 1 "pair", .int .int]

theorem sizesFit_gridType : rowGlobals.SizesFit gridType := by
  intro t n ht hn
  have hmem : t ∈ gridTypes := by
    refine ht.mem_of_closed (S := (· ∈ gridTypes)) ?_ ?_ ?_ (by simp [gridTypes])
    · intro name u hname hu
      obtain rfl : name = "row" := by simpa [gridTypes, gridType, rowType] using hname
      obtain rfl : rowType = u := by simpa [rowGlobals] using hu
      simp [gridTypes]
    · intro e l he
      simp only [gridTypes, gridType, rowType, List.mem_cons, Ty.array.injEq, reduceCtorEq,
        List.not_mem_nil, or_false, false_or] at he
      rcases he with ⟨rfl, -⟩ | ⟨rfl, -⟩ <;> simp [gridTypes]
    · intro key name c _ hc f hf
      rw [composite?_pairGlobals hc] at hf
      have htype : f.type = .int .int := by
        rcases List.mem_cons.mp hf with rfl | hf
        · rfl
        · rw [List.mem_singleton.mp hf]
      simp [htype, gridTypes]
  have hsizes : gridTypes.map rowGlobals.size? = [none, some 16, some 16, some 8, some 4] := by
    decide
  have hsize : some n ∈ gridTypes.map rowGlobals.size? := hn ▸ List.mem_map_of_mem hmem
  rw [hsizes] at hsize
  have hcases : n = 16 ∨ n = 8 ∨ n = 4 := by simpa using hsize
  omega

/-- A row back and four bytes on from there: the second field of the first pair of that row, twelve
bytes before the grid. -/
theorem liftMemoryOffset_exact_on_grid :
    let o : Sym.Offset := .const (-16) (.const 4 .none)
    let offset := (liftMemoryOffset o (some gridType) ⟨{}, 0x1000, []⟩
      (Session.start { globals := rowGlobals } "f")).1
    offset.reasons = [] ∧ ∀ d, offset.Displaces rowGlobals (some gridType) d ↔ d = -12 := by
  intro o offset
  have hresolved : offset.reasons = [] := by decide
  refine ⟨hresolved, fun d => ?_⟩
  exact liftMemoryOffset_exact distinctFields_pairGlobals forwardFields_rowGlobals
    (show o.total? = some (-12) from rfl) sizesFit_gridType hresolved d

end LiftM

end FactLift
