import FactLift.Proofs.Sym.Simplify
import FactLift.Proofs.Symbols.Lookups

/-! The questions about global symbols that a symbolic value leads to.

Address constants are looked up as they are, and an access to global memory goes to an address: the
first constant of its chain of offsets when it is lifted, the sum of all when it is lowered.
Simplifying adds no question (`Expr.lookups_settle`, `Expr.lookups_simplify`). -/

namespace FactLift.Sym

/-- The question that a constant leads to. -/
def Constant.lookups : Constant → List Lookup
  | .int _ _ => []
  | .address a => [.constant a]

/-- The distances from a base that a chain of offsets starts with or adds up to. -/
def Offset.distances (o : Offset) : List Int64 :=
  (match o with
    | .const v _ => [v]
    | _ => []) ++ o.constant?.toList

/-- The questions that an access at an offset from a base leads to: one for each address, if the
base is that of global memory. -/
def Base.accesses (base : Base) (o : Offset) : List Lookup :=
  match base with
  | .globals => o.distances.map fun v => .access v.toUInt64
  | _ => []

mutual

/-- The questions that an expression leads to. -/
def Expr.lookups : Expr → List Lookup
  | .const c => c.lookups
  | .var v => v.lookups
  | .apply _ args => Expr.lookupsOf args

/-- The questions that a list of expressions leads to. -/
def Expr.lookupsOf : List Expr → List Lookup
  | [] => []
  | a :: rest => a.lookups ++ Expr.lookupsOf rest

/-- The questions that a variable leads to. -/
def Variable.lookups : Variable → List Lookup
  | ⟨_, _, meaning⟩ => meaning.lookups

/-- The questions that what a variable denotes leads to. -/
def Meaning.lookups : Meaning → List Lookup
  | .absent | .register _ | .flag _ => []
  | .memory base _ offset => base.accesses offset ++ base.lookups ++ offset.lookups
  | .fixed value => value.lookups

/-- The questions that a memory base leads to. -/
def Base.lookups : Base → List Lookup
  | .pointer v => v.lookups
  | .localFrame | .allocatedFrame | .realignedFrame | .globals | .unknown _ => []

/-- The questions that a chain of offsets leads to. -/
def Offset.lookups : Offset → List Lookup
  | .none | .unknown => []
  | .const _ sub | .field _ _ sub => sub.lookups
  | .index i sub => i.lookups ++ sub.lookups
  | .indexVar v _ sub => v.lookups ++ sub.lookups

/-- The questions that a fixed value leads to. -/
def FixedValue.lookups : FixedValue → List Lookup
  | .initialRegister _ _ | .returnValue _ _ => []
  | .initialMemory v => v.lookups
  | .symbolic _ x => x.lookups

end

theorem append_subset_append {α : Type} {xs xs' ys ys' : List α} (h : xs ⊆ xs') (h' : ys ⊆ ys') :
    xs ++ ys ⊆ xs' ++ ys' :=
  List.append_subset.mpr
    ⟨List.subset_append_of_subset_left _ h, List.subset_append_of_subset_right _ h'⟩

theorem lookups_subset_lookupsOf {x : Expr} {xs : List Expr} (h : x ∈ xs) :
    x.lookups ⊆ Expr.lookupsOf xs := by
  induction xs with
  | nil => cases h
  | cons a rest ih =>
    rw [Expr.lookupsOf]
    rcases List.mem_cons.mp h with rfl | h
    · exact List.subset_append_left _ _
    · exact List.subset_append_of_subset_right _ (ih h)

/-! ### Values ask for addresses only -/

theorem function_notMem_accesses (name : String) (base : Base) (o : Offset) :
    .function name ∉ base.accesses o := by
  cases base <;> simp [Base.accesses]

mutual

theorem Expr.function_notMem (name : String) : ∀ x : Expr, .function name ∉ x.lookups
  | .const (.int ..) | .const (.address _) => by simp [Expr.lookups, Constant.lookups]
  | .var v => by
    rw [Expr.lookups]
    exact Variable.function_notMem name v
  | .apply _ args => by
    rw [Expr.lookups]
    exact Expr.function_notMem_lookupsOf name args

theorem Expr.function_notMem_lookupsOf (name : String) :
    ∀ xs : List Expr, .function name ∉ Expr.lookupsOf xs
  | [] => by simp [Expr.lookupsOf]
  | a :: rest => by
    rw [Expr.lookupsOf, List.mem_append, not_or]
    exact ⟨Expr.function_notMem name a, Expr.function_notMem_lookupsOf name rest⟩

theorem Variable.function_notMem (name : String) : ∀ v : Variable, .function name ∉ v.lookups
  | ⟨_, _, meaning⟩ => by
    rw [Variable.lookups]
    exact Meaning.function_notMem name meaning

theorem Meaning.function_notMem (name : String) : ∀ m : Meaning, .function name ∉ m.lookups
  | .absent | .register _ | .flag _ => by simp [Meaning.lookups]
  | .memory base _ offset => by
    rw [Meaning.lookups, List.mem_append, List.mem_append, not_or, not_or]
    exact ⟨⟨function_notMem_accesses name base offset, Base.function_notMem name base⟩,
      Offset.function_notMem name offset⟩
  | .fixed value => by
    rw [Meaning.lookups]
    exact FixedValue.function_notMem name value

theorem Base.function_notMem (name : String) : ∀ b : Base, .function name ∉ b.lookups
  | .pointer v => by
    rw [Base.lookups]
    exact Variable.function_notMem name v
  | .localFrame | .allocatedFrame | .realignedFrame | .globals | .unknown _ => by
    simp [Base.lookups]

theorem Offset.function_notMem (name : String) : ∀ o : Offset, .function name ∉ o.lookups
  | .none | .unknown => by simp [Offset.lookups]
  | .const _ sub | .field _ _ sub => by
    rw [Offset.lookups]
    exact Offset.function_notMem name sub
  | .index i sub => by
    rw [Offset.lookups, List.mem_append, not_or]
    exact ⟨Expr.function_notMem name i, Offset.function_notMem name sub⟩
  | .indexVar v _ sub => by
    rw [Offset.lookups, List.mem_append, not_or]
    exact ⟨Variable.function_notMem name v, Offset.function_notMem name sub⟩

theorem FixedValue.function_notMem (name : String) :
    ∀ value : FixedValue, .function name ∉ value.lookups
  | .initialRegister .. | .returnValue .. => by simp [FixedValue.lookups]
  | .initialMemory v => by
    rw [FixedValue.lookups]
    exact Variable.function_notMem name v
  | .symbolic _ x => by
    rw [FixedValue.lookups]
    exact Expr.function_notMem name x

end

/-! ### Simplifying -/

/-- A result of folding is no address. -/
theorem IsResult.lookups {w : Width} {c : Constant} (h : IsResult w c) : c.lookups = [] := by
  cases h <;> rfl

theorem lookups_moved (base : Expr) (total : Int64) (w : Width) :
    (moved base total w).lookups ⊆ base.lookups := by
  have hbinary (op : Op) (v : Int64) : (Expr.binary op base (.const (.atWidth v w))).lookups =
      base.lookups := by
    simp [Expr.binary, Expr.lookups, Expr.lookupsOf, (IsResult.word v).lookups]
  simp only [moved]
  split
  · exact List.Subset.refl _
  · split <;> rw [hbinary] <;> exact List.Subset.refl _

/-- A base is an operand of what is moved by a constant. -/
theorem lookups_movedBy? {x base : Expr} {d : Int64} {w : Width}
    (h : movedBy? x = some (base, d, w)) : base.lookups ⊆ x.lookups := by
  obtain ⟨op, c, -, rfl, -⟩ := movedBy?_eq_some h
  exact lookups_subset_lookupsOf List.mem_cons_self

theorem lookups_simplifyLinear (x : Expr) : (simplifyLinear x).lookups ⊆ x.lookups := by
  unfold simplifyLinear
  split
  next base outer w houter =>
    have hbase := lookups_movedBy? houter
    split
    next inner c w' hinner =>
      exact List.Subset.trans (lookups_moved _ _ _)
        (List.Subset.trans (lookups_movedBy? hinner) hbase)
    next => exact List.Subset.trans (lookups_moved _ _ _) hbase
  next => exact List.Subset.refl _

theorem lookups_simplifyTop (op : Op) (args : List Expr) :
    (simplifyTop (.apply op args)).lookups ⊆ Expr.lookupsOf args := by
  unfold simplifyTop
  split
  next c hc =>
    rw [Expr.fold] at hc
    obtain ⟨cs, -, hop⟩ := Option.bind_eq_some_iff.mp hc
    rw [Expr.lookups, (foldOp_isResult hop).lookups]
    exact List.nil_subset _
  next => exact lookups_simplifyLinear _

mutual

theorem Expr.lookups_simplify : ∀ x : Expr, x.simplify.lookups ⊆ x.lookups
  | .const c => by
    rw [Expr.simplify]
    exact List.Subset.refl _
  | .var v => by
    rw [Expr.simplify]
    exact List.Subset.refl _
  | .apply op args => by
    rw [Expr.simplify, Expr.lookups]
    exact List.Subset.trans (lookups_simplifyTop op _) (Expr.lookupsOf_simplifyAll args)

theorem Expr.lookupsOf_simplifyAll :
    ∀ xs : List Expr, Expr.lookupsOf (Expr.simplifyAll xs) ⊆ Expr.lookupsOf xs
  | [] => by
    rw [Expr.simplifyAll]
    exact List.Subset.refl _
  | a :: rest => by
    rw [Expr.simplifyAll, Expr.lookupsOf, Expr.lookupsOf]
    exact append_subset_append (Expr.lookups_simplify a) (Expr.lookupsOf_simplifyAll rest)

end

/-! ### Settling -/

theorem constant?_settle : ∀ o : Offset, o.settle.constant? = o.constant?
  | .none | .field .. | .index .. | .indexVar .. | .unknown => by
    simp only [Offset.settle, Offset.constant?]
  | .const v sub => by simp only [Offset.settle, Offset.constant?, constant?_settle sub]

theorem distances_settle (o : Offset) : o.settle.distances = o.distances := by
  unfold Offset.distances
  rw [constant?_settle]
  cases o <;> rw [Offset.settle]

theorem accesses_settle (base : Base) (o : Offset) :
    base.settle.accesses o.settle = base.accesses o := by
  cases base <;> simp only [Base.settle, Base.accesses, distances_settle]

mutual

theorem Expr.lookups_settle : ∀ x : Expr, x.settle.lookups ⊆ x.lookups
  | .const c => by
    rw [Expr.settle]
    exact List.Subset.refl _
  | .var v => by
    rw [Expr.settle, Expr.lookups, Expr.lookups]
    exact Variable.lookups_settle v
  | .apply op args => by
    rw [Expr.settle, Expr.lookups, Expr.lookups]
    exact Expr.lookupsOf_settleAll args

theorem Expr.lookupsOf_settleAll :
    ∀ xs : List Expr, Expr.lookupsOf (Expr.settleAll xs) ⊆ Expr.lookupsOf xs
  | [] => by
    rw [Expr.settleAll]
    exact List.Subset.refl _
  | a :: rest => by
    rw [Expr.settleAll, Expr.lookupsOf, Expr.lookupsOf]
    exact append_subset_append (Expr.lookups_settle a) (Expr.lookupsOf_settleAll rest)

theorem Variable.lookups_settle : ∀ v : Variable, v.settle.lookups ⊆ v.lookups
  | ⟨name, number, meaning⟩ => by
    rw [Variable.settle, Variable.lookups, Variable.lookups]
    exact Meaning.lookups_settle meaning

theorem Meaning.lookups_settle : ∀ m : Meaning, m.settle.lookups ⊆ m.lookups
  | .absent | .register _ | .flag _ => by
    rw [Meaning.settle]
    exact List.Subset.refl _
  | .memory base size offset => by
    rw [Meaning.settle, Meaning.lookups, Meaning.lookups, accesses_settle]
    exact append_subset_append
      (append_subset_append (List.Subset.refl _) (Base.lookups_settle base))
      (Offset.lookups_settle offset)
  | .fixed value => by
    rw [Meaning.settle, Meaning.lookups, Meaning.lookups]
    exact FixedValue.lookups_settle value

theorem Base.lookups_settle : ∀ b : Base, b.settle.lookups ⊆ b.lookups
  | .pointer v => by
    rw [Base.settle, Base.lookups, Base.lookups]
    exact Variable.lookups_settle v
  | .localFrame | .allocatedFrame | .realignedFrame | .globals | .unknown _ => by
    rw [Base.settle]
    exact List.Subset.refl _

theorem Offset.lookups_settle : ∀ o : Offset, o.settle.lookups ⊆ o.lookups
  | .none | .unknown => by
    rw [Offset.settle]
    exact List.Subset.refl _
  | .const _ sub | .field _ _ sub => by
    rw [Offset.settle, Offset.lookups, Offset.lookups]
    exact Offset.lookups_settle sub
  | .index i sub => by
    rw [Offset.settle, Offset.lookups, Offset.lookups]
    exact append_subset_append (List.Subset.trans (Expr.lookups_simplify _) (Expr.lookups_settle i))
      (Offset.lookups_settle sub)
  | .indexVar v _ sub => by
    rw [Offset.settle, Offset.lookups, Offset.lookups]
    exact append_subset_append (Variable.lookups_settle v) (Offset.lookups_settle sub)

theorem FixedValue.lookups_settle : ∀ value : FixedValue, value.settle.lookups ⊆ value.lookups
  | .initialRegister _ _ | .returnValue _ _ => by
    rw [FixedValue.settle]
    exact List.Subset.refl _
  | .initialMemory v => by
    rw [FixedValue.settle, FixedValue.lookups, FixedValue.lookups]
    exact Variable.lookups_settle v
  | .symbolic _ x => by
    rw [FixedValue.settle, FixedValue.lookups, FixedValue.lookups]
    exact List.Subset.trans (Expr.lookups_simplify _) (Expr.lookups_settle x)

end

end FactLift.Sym
