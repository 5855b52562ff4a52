import FactLift.Lift.Low
import Mathlib.Data.List.Sort

/-! Global symbols that are in order.

Types come from composites and type names alone (`Globals.SameTypes`). In a table that is in order,
variables are kept under their names and addresses lead to variables that have them
(`Globals.Registered`). A variable that is made up on the way has no type, so it contains no address
but its own (`Globals.containing?_addVariable`). -/

namespace FactLift

open C

/-! ### Types -/

/-- Two tables with the same composites and type names. -/
structure Globals.SameTypes (g g' : Globals) : Prop where
  composites : g.composites = g'.composites
  typedefs : g.typedefs = g'.typedefs

namespace Globals.SameTypes

variable {g g' g'' : Globals}

theorem symm (h : g.SameTypes g') : g'.SameTypes g := ⟨h.composites.symm, h.typedefs.symm⟩

theorem trans (h : g.SameTypes g') (h' : g'.SameTypes g'') : g.SameTypes g'' :=
  ⟨h.composites.trans h'.composites, h.typedefs.trans h'.typedefs⟩

theorem composite? (h : g.SameTypes g') (key : Nat) : g.composite? key = g'.composite? key := by
  rw [Globals.composite?, Globals.composite?, h.composites]

theorem resolveWithin (h : g.SameTypes g') (limit : Nat) (t : Ty) :
    g.resolveWithin limit t = g'.resolveWithin limit t := by
  induction limit generalizing t with
  | zero => rfl
  | succ limit ih => cases t <;> simp only [Globals.resolveWithin, h.typedefs, ih]

theorem resolve (h : g.SameTypes g') (t : Ty) : g.resolve t = g'.resolve t :=
  h.resolveWithin maxTypedefs t

theorem nesting (h : g.SameTypes g') : g.nesting = g'.nesting := by
  simp only [Globals.nesting, h.composites, h.typedefs]

theorem sizeFrom (h : g.SameTypes g') (sizes : Ty → Except Fault (Option Nat)) (t : Ty) :
    g.sizeFrom sizes t = g'.sizeFrom sizes t := by
  simp only [Globals.sizeFrom, h.resolve, h.composite?]

theorem sizeWithin (h : g.SameTypes g') (depth : Nat) : g.sizeWithin depth = g'.sizeWithin depth := by
  induction depth with
  | zero => rfl
  | succ depth ih =>
    funext t
    rw [Globals.sizeWithin, Globals.sizeWithin, ih, h.sizeFrom]

theorem sizing (h : g.SameTypes g') : g.sizing = g'.sizing := by
  funext t
  rw [Globals.sizing, Globals.sizing, h.nesting, h.sizeWithin]

theorem size? (h : g.SameTypes g') (t : Ty) : g.size? t = g'.size? t := by
  rw [Globals.size?, Globals.size?, h.sizing]

theorem navigateWithin (h : g.SameTypes g') (depth : Nat) (host : Ty) (bytes : Int64) :
    g.navigateWithin depth host bytes = g'.navigateWithin depth host bytes := by
  induction depth generalizing host bytes with
  | zero => rfl
  | succ depth ih =>
    simp only [Globals.navigateWithin, navigateFrom, intoField, h.resolve, h.composite?, h.sizing, ih]

theorem navigation (h : g.SameTypes g') (host : Ty) (bytes : Int64) :
    g.navigation host bytes = g'.navigation host bytes := by
  rw [Globals.navigation, Globals.navigation, h.nesting, h.navigateWithin]

theorem navigate (h : g.SameTypes g') (host : Ty) (bytes : Int64) :
    g.navigate host bytes = g'.navigate host bytes := by
  rw [Globals.navigate, Globals.navigate, h.navigation]

theorem typeWithin (h : g.SameTypes g') :
    ∀ (o : Offset) (t : Ty), o.typeWithin g t = o.typeWithin g' t
  | .none, _ | .unresolved _, _ => rfl
  | .field name key sub, t => by simp only [Offset.typeWithin, h.composite?, typeWithin h sub]
  | .index i sub, t => by simp only [Offset.typeWithin, typeWithin h sub]

mutual

theorem typeOf (h : g.SameTypes g') : ∀ e : Expr, e.typeOf g = e.typeOf g'
  | .int .. | .float .. | .string .. | .sizeOf _ | .cast .. | .unresolved _ => by
    simp only [Expr.typeOf]
  | .globalAddress _ e => by simp only [Expr.typeOf, typeOf h e]
  | .lval l | .addressOf l => by simp only [Expr.typeOf, lvalType h l]
  | .unary op e => by cases op <;> simp only [Expr.typeOf, typeOf h e]
  | .binary op a b | .conditional _ a b => by simp only [Expr.typeOf, typeOf h a, typeOf h b]

theorem lvalType (h : g.SameTypes g') : ∀ l : Lval, l.typeOf g = l.typeOf g'
  | .var s offset => by simp only [Lval.typeOf, h.typeWithin]
  | .mem e offset => by simp only [Lval.typeOf, h.typeWithin, typeOf h e]

end

theorem shiftRight (h : g.SameTypes g') (signed : Bool) (a b : Expr) :
    FactLift.shiftRight g signed a b = FactLift.shiftRight g' signed a b := by
  simp only [FactLift.shiftRight, h.typeOf]

theorem movement (h : g.SameTypes g') (cfg : Config) (op : BinOp) (p : Expr) (c : Int64) :
    FactLift.movement cfg g op p c = FactLift.movement cfg g' op p c := by
  simp only [FactLift.movement, movePointer, fieldStart?, h.typeOf, funext h.resolve, h.sizing,
    h.composite?]

theorem moveBy (h : g.SameTypes g') (cfg : Config) (op : BinOp) (p : Expr) (c : Int64) :
    FactLift.moveBy cfg g op p c = FactLift.moveBy cfg g' op p c := by
  rw [FactLift.moveBy, FactLift.moveBy, h.movement]

theorem fieldType? (h : g.SameTypes g') (name : String) (key : Nat) :
    LiftM.fieldType? g name key = LiftM.fieldType? g' name key := by
  simp only [LiftM.fieldType?, h.composite?]

theorem targetType? (h : g.SameTypes g') (p : Expr) :
    LiftM.targetType? g p = LiftM.targetType? g' p := by
  simp only [LiftM.targetType?, h.typeOf, funext h.resolve]

end Globals.SameTypes

/-! ### Tables that are in order -/

/-- Lists that are sorted by their keys are equal if they have the same entries. -/
theorem eq_of_sorted_keys {α β : Type} [Ord α] [Std.TransOrd α] {l l' : List (α × β)}
    (h : l.Pairwise fun x y => compare x.1 y.1 = .lt)
    (h' : l'.Pairwise fun x y => compare x.1 y.1 = .lt) (hmem : ∀ x, x ∈ l ↔ x ∈ l') : l = l' := by
  have : Std.Antisymm fun x y : α × β => compare x.1 y.1 = .lt :=
    ⟨fun x y hxy hyx =>
      absurd (hxy.symm.trans (Std.OrientedCmp.eq_swap.trans (congrArg Ordering.swap hyx))) nofun⟩
  have : Std.Irrefl fun x y : α × β => compare x.1 y.1 = .lt :=
    ⟨fun x hx => absurd (hx.symm.trans Std.ReflCmp.compare_self) nofun⟩
  exact h.eq_of_mem_iff h' hmem

/-- Entries that give nothing may be left out of a search. -/
theorem findSome?_filter {α β : Type} {p : α → Bool} {f f' : α → Option β} {l l' : List α}
    (hl : l'.filter p = l) (hout : ∀ x ∈ l', p x = false → f' x = none)
    (hin : ∀ x ∈ l, f' x = f x) : l'.findSome? f' = l.findSome? f := by
  subst hl
  induction l' with
  | nil => rfl
  | cons x rest ih =>
    have hrest := ih fun y hy => hout y (List.mem_cons_of_mem _ hy)
    cases hp : p x with
    | true =>
      rw [List.filter_cons_of_pos hp] at hin ⊢
      rw [List.findSome?_cons, List.findSome?_cons, hin x List.mem_cons_self,
        hrest fun y hy => hin y (List.mem_cons_of_mem _ hy)]
    | false =>
      rw [List.filter_cons_of_neg (by simp [hp])] at hin ⊢
      rw [List.findSome?_cons, hout x List.mem_cons_self hp]
      exact hrest hin

namespace Globals

/-- Variables are kept under their names, and the one that is known at an address has it. -/
structure Registered (g : Globals) : Prop where
  names : ∀ (name : String) (s : Symbol), g.vars[name]? = some s → s.name = name
  known : ∀ (a : UInt64) (name : String), g.addresses[a]? = some name →
    ∃ s : Symbol, g.vars[name]? = some s ∧ s.address = some a
  listed : ∀ (name : String) (s : Symbol) (a : UInt64), g.vars[name]? = some s →
    s.address = some a → a ∈ g.addresses

variable {g g' : Globals}

theorem registered_empty : Registered {} := ⟨by simp, by simp, by simp⟩

theorem Registered.addTypedef (h : g.Registered) (name : String) (t : Ty) :
    (g.addTypedef name t).Registered := by
  unfold Globals.addTypedef
  split
  · exact h
  · exact ⟨h.names, h.known, h.listed⟩

theorem addComposite_cases {c : Composite} (h : g.addComposite c = .ok g') :
    g' = g ∨
      g.composite? c.key = none ∧ g' = { g with composites := g.composites.insert c.key c } := by
  unfold addComposite at h
  split at h
  next hnew => exact .inr ⟨hnew, (Except.ok.inj h).symm⟩
  next =>
    split at h
    · exact .inl (Except.ok.inj h).symm
    · cases h

theorem Registered.addComposite (h : g.Registered) {c : Composite}
    (hc : g.addComposite c = .ok g') : g'.Registered := by
  rcases addComposite_cases hc with rfl | ⟨-, rfl⟩
  · exact h
  · exact ⟨h.names, h.known, h.listed⟩

/-- Adding a variable leaves the types alone. -/
theorem sameTypes_addVariable (g : Globals) (s : Symbol) : g.SameTypes (g.addVariable s).2 := by
  unfold addVariable
  split <;> exact ⟨rfl, rfl⟩

theorem addVariable_of_some {s s' : Symbol} (h : g.named? s.name = some s') :
    g.addVariable s = (s', g) := by
  simp only [addVariable, h]

theorem addVariable_of_none {s : Symbol} (h : g.named? s.name = none) :
    g.addVariable s = (s, { g with
      vars := g.vars.insert s.name s
      addresses := s.address.elim g.addresses fun a => g.addresses.insert a s.name }) := by
  simp only [addVariable, h]
  cases s.address <;> rfl

theorem named?_insert (vars : Std.TreeMap String Symbol) (s : Symbol) (name : String) :
    (vars.insert s.name s)[name]? = if s.name = name then some s else vars[name]? := by
  simp [Std.TreeMap.getElem?_insert]

/-- After a variable was asked for, it is there. -/
theorem named?_addVariable (g : Globals) (s : Symbol) (name : String) :
    (g.addVariable s).2.named? name =
      if s.name = name then some (g.addVariable s).1 else g.named? name := by
  cases h : g.named? s.name with
  | some s' =>
    rw [addVariable_of_some h]
    split
    next heq => rw [← heq, h]
    next => rfl
  | none =>
    rw [addVariable_of_none h]
    exact named?_insert g.vars s name

theorem Registered.addVariable (h : g.Registered) (s : Symbol) :
    (g.addVariable s).2.Registered := by
  cases hnamed : g.named? s.name with
  | some s' =>
    rw [addVariable_of_some hnamed]
    exact h
  | none =>
    rw [addVariable_of_none hnamed]
    constructor
    · intro name v hv
      rw [named?_insert] at hv
      split at hv
      next heq => rw [← Option.some.inj hv, heq]
      next => exact h.names name v hv
    · intro a name ha
      have hcase : g.addresses[a]? = some name ∨ (s.address = some a ∧ s.name = name) := by
        cases haddress : s.address with
        | none =>
          rw [haddress] at ha
          exact .inl ha
        | some b =>
          rw [haddress] at ha
          simp only [Option.elim_some, Std.TreeMap.getElem?_insert,
            Std.LawfulEqOrd.compare_eq_iff_eq] at ha
          split at ha
          next heq => exact .inr ⟨by rw [heq], Option.some.inj ha⟩
          next => exact .inl ha
      rcases hcase with ha | ⟨haddress, rfl⟩
      · obtain ⟨v, hv, hva⟩ := h.known a name ha
        refine ⟨v, ?_, hva⟩
        rw [named?_insert, if_neg, hv]
        rintro rfl
        rw [Globals.named?, hv] at hnamed
        cases hnamed
      · exact ⟨s, by rw [named?_insert, if_pos rfl], haddress⟩
    · intro name v a hv hva
      have hcase : s = v ∨ g.vars[name]? = some v := by
        rw [named?_insert] at hv
        split at hv
        · exact .inl (Option.some.inj hv)
        · exact .inr hv
      rcases hcase with rfl | hv
      · simp [hva]
      · have hmem := h.listed name v a hv hva
        cases s.address <;> simp [hmem]

theorem Registered.at?_isSome (h : g.Registered) {a : UInt64} (ha : a ∈ g.addresses) :
    (g.at? a).isSome := by
  obtain ⟨name, hname⟩ := Option.isSome_iff_exists.mp (Std.TreeMap.mem_iff_isSome_getElem?.mp ha)
  obtain ⟨s, hs, -⟩ := h.known a name hname
  simp [at?, hname, named?, hs]

/-- The variable at an address is kept under its name and has the address. -/
theorem Registered.of_at? (h : g.Registered) {a : UInt64} {s : Symbol} (hs : g.at? a = some s) :
    g.named? s.name = some s ∧ s.address = some a := by
  obtain ⟨name, hname, hnamed⟩ := Option.bind_eq_some_iff.mp hs
  obtain ⟨v, hv, hva⟩ := h.known a name hname
  obtain rfl : s = v := Option.some.inj (hnamed.symm.trans hv)
  rw [h.names name s hv]
  exact ⟨hnamed, hva⟩

/-- A variable that has an address keeps others from being made up there. -/
theorem Registered.at?_of_named? (h : g.Registered) {name : String} {a : UInt64} {s : Symbol}
    (hs : g.named? name = some s) (ha : s.address = some a) : (g.at? a).isSome :=
  h.at?_isSome (h.listed name s a hs ha)

/-! ### Making up variables -/

section New

variable {s : Symbol} (h : g.Registered) (hnew : g.named? s.name = none)
include hnew

theorem named?_addVariable_self : (g.addVariable s).2.named? s.name = some s := by
  rw [named?_addVariable, if_pos rfl, addVariable_of_none hnew]

theorem addresses_addVariable (a : UInt64) :
    (g.addVariable s).2.addresses[a]? =
      if s.address = some a then some s.name else g.addresses[a]? := by
  rw [addVariable_of_none hnew]
  cases s.address <;> simp [Std.TreeMap.getElem?_insert]

include h

/-- What an address leads to is not what is new. -/
theorem named?_addVariable_of_known {a : UInt64} {name : String}
    (hname : g.addresses[a]? = some name) :
    (g.addVariable s).2.named? name = g.named? name := by
  rw [named?_addVariable, if_neg]
  rintro rfl
  obtain ⟨v, hv, -⟩ := h.known a _ hname
  rw [Globals.named?, hv] at hnew
  cases hnew

theorem at?_addVariable (a : UInt64) :
    (g.addVariable s).2.at? a = if s.address = some a then some s else g.at? a := by
  simp only [at?, addresses_addVariable hnew]
  split
  · exact named?_addVariable_self hnew
  · cases hname : g.addresses[a]? with
    | none => rfl
    | some name => exact named?_addVariable_of_known h hnew hname

/-- A variable that is made up contains no address but its own. -/
theorem containing?_addVariable (hbare : ∀ a, s.address = some a → s.type = none ∧ g.at? a = none)
    (a : UInt64) :
    (g.addVariable s).2.containing? a =
      if s.address = some a then some (s, 0) else g.containing? a := by
  rw [containing?, containing?, at?_addVariable h hnew]
  by_cases ha : s.address = some a
  · rw [if_pos ha, if_pos ha]
  rw [if_neg ha, if_neg ha]
  cases g.at? a with
  | some v => rfl
  | none =>
    -- without the address of the new variable, the addresses are those from before
    have hsorted (g : Globals) : g.addresses.toList.Pairwise fun x y => compare x.1 y.1 = .lt :=
      Std.TreeMap.ordered_keys_toList
    have haddresses : (g.addVariable s).2.addresses.toList.filter (fun x => s.address ≠ some x.1) =
        g.addresses.toList := by
      refine eq_of_sorted_keys ((hsorted _).filter _) (hsorted g) fun ⟨start, name⟩ => ?_
      rw [List.mem_filter, Std.TreeMap.mem_toList_iff_getElem?_eq_some,
        Std.TreeMap.mem_toList_iff_getElem?_eq_some, addresses_addVariable hnew]
      by_cases hstart : s.address = some start
      · suffices g.addresses[start]? ≠ some name by simpa [hstart] using this
        intro hname
        have hfound := h.at?_isSome (Std.TreeMap.mem_iff_isSome_getElem?.mpr (by rw [hname]; rfl))
        rw [(hbare start hstart).2] at hfound
        cases hfound
      · simp [hstart]
    refine findSome?_filter (p := fun x => s.address ≠ some x.1) ?_ ?_ ?_
    · rw [below, below, List.filter_comm, haddresses]
    · intro ⟨start, name⟩ hmem hstart
      have hstart : s.address = some start := by simpa using hstart
      have hname := Std.TreeMap.mem_toList_iff_getElem?_eq_some.mp (List.mem_of_mem_filter hmem)
      rw [addresses_addVariable hnew, if_pos hstart] at hname
      simp [← Option.some.inj hname, named?_addVariable_self hnew, (hbare start hstart).1]
    · intro ⟨start, name⟩ hmem
      have hname : g.addresses[start]? = some name :=
        Std.TreeMap.mem_toList_iff_getElem?_eq_some.mp (List.mem_of_mem_filter hmem)
      simp only [named?_addVariable_of_known h hnew hname, (g.sameTypes_addVariable s).size?]

end New

end Globals

end FactLift
