import FactLift.Proofs.Lift.ConstantOffset
import FactLift.Proofs.Symbols.Storage

/-! Addresses of global memory that are used as numbers.

Such an address is written as the address of the variable that contains it, with the fields and
indices that lead from the start of the variable to it (`Annotates`). It stays a plain number where
the search for a variable finds none (`liftExpr_address_exact`): no variable starts there, and those
that store it are hidden behind others that share their addresses (`hidden_storage_missed`). -/

namespace FactLift

open C

/-- An expression is the address of a variable or of a part of it, and carries an address: that of
the variable, moved by as many bytes as the part lies into it. -/
def Annotates (g : Globals) (e : Expr) (a : UInt64) : Prop :=
  ∃ v start offset, g.named? v.name = some v ∧ v.address = some start ∧
    e = .globalAddress a.toInt64 (.addressOf (.var v offset)) ∧
    ∀ d : Int, offset.Displaces g v.type d ↔ start.toNat + d = a.toNat

namespace LiftM

variable {site : Site} {s : Session} {a : UInt64} {v : Symbol}

theorem liftExpr_address (a : UInt64) : liftExpr (.const (.address a)) = liftAddress a := by
  rw [liftExpr, Sym.Expr.settle, Sym.Expr.simplify, liftSettled, liftConstant]

/-! ### What the search finds -/

theorem liftAddress_plain (h : s.globals.containing? a = none) :
    (liftAddress a site s).1 = .int a.toInt64 .uint := by
  rw [liftAddress, bind_eq, sought_eq, h]
  rfl

theorem liftAddress_start (h : s.globals.containing? a = some (v, 0)) :
    (liftAddress a site s).1 = .globalAddress a.toInt64 (.addressOf (.var v .none)) := by
  rw [liftAddress, bind_eq, sought_eq, h]
  rfl

theorem liftAddress_inside {distance : Int64} {t : Ty}
    (h : s.globals.containing? a = some (v, distance)) (hne : distance ≠ 0)
    (ht : v.type = some t) :
    (liftAddress a site s).1 = .globalAddress a.toInt64
      (.addressOf (.var v (along t distance (fun _ => pure .none) site
        (s.stop (Fault.of? (s.globals.search a)))).1)) := by
  rw [liftAddress, bind_eq, sought_eq, h]
  simp only [if_neg hne, ht]
  rfl

theorem annotates_start (hg : s.globals.Registered) (h : s.globals.at? a = some v) :
    Annotates s.globals (liftAddress a site s).1 a := by
  obtain ⟨hnamed, haddress⟩ := hg.of_at? h
  refine ⟨v, a, .none, hnamed, haddress, liftAddress_start (Globals.containing?_of_at? h), ?_⟩
  intro d
  constructor
  · intro hd
    rw [hd.unique (.none _), Int.add_zero]
  · intro hd
    obtain rfl : d = 0 := by omega
    exact .none _

theorem annotates_inside (hg : s.globals.Registered) (hnames : s.globals.DistinctFields)
    (hforward : s.globals.ForwardFields) {start : UInt64} {t : Ty} {n : Nat}
    (hfound : s.globals.containing? a = some (v, (a - start).toInt64))
    (hat : s.globals.at? start = some v) (hlt : start < a) (ht : v.type = some t)
    (hn : s.globals.size? t = some n) (hreaches : (a - start).toNat < n)
    (hsizes : s.globals.SizesFit t) (hresolved : (liftAddress a site s).1.reasons = []) :
    Annotates s.globals (liftAddress a site s).1 a := by
  obtain ⟨hnamed, haddress⟩ := hg.of_at? hat
  have hfits : (a - start).toNat < 2 ^ 63 := Nat.lt_trans hreaches (hsizes t n .self hn)
  have hdistance := Globals.toInt_distance (UInt64.le_of_lt hlt) hfits
  have hne : (a - start).toInt64 ≠ 0 := by
    intro hzero
    rw [hzero, Int64.toInt_zero] at hdistance
    have hstart := UInt64.lt_iff_toNat_lt.mp hlt
    omega
  have hlifted : (liftAddress a site s).1 = _ := liftAddress_inside hfound hne ht
  rw [hlifted, Expr.reasons, Expr.reasons, Lval.reasons] at hresolved
  have hexact := along_exact (s := s.stop (Fault.of? (s.globals.search a))) hnames hforward hsizes
    (fun landing _ _ => .none (some landing)) hresolved
  refine ⟨v, start, _, hnamed, haddress, hlifted, fun d => ?_⟩
  rw [ht]
  constructor
  · intro hd
    rw [hd.unique hexact, Int.add_zero]
    exact hdistance
  · intro hd
    obtain rfl : d = (a - start).toInt64.toInt + 0 := by omega
    exact hexact

/-- **Addresses are annotated with what they stand for.** An address that is lifted without a
placeholder is a plain number, or the address of a variable, or of the part of it that lies exactly
there. It is a plain number if no variable starts there and every variable that stores it is hidden
behind another one at its own address, and only then. -/
theorem liftExpr_address_exact (hg : s.globals.Registered) (hnames : s.globals.DistinctFields)
    (hforward : s.globals.ForwardFields) (hsizes : s.globals.VariablesFit) (a : UInt64)
    (hresolved : (liftExpr (.const (.address a)) site s).1.reasons = []) :
    let e := (liftExpr (.const (.address a)) site s).1
    (e = .int a.toInt64 .uint ∨ Annotates s.globals e a) ∧
      (e = .int a.toInt64 .uint ↔ ∀ name v, s.globals.named? name = some v →
        v.address ≠ some a ∧ (s.globals.Stores v a → s.globals.IsHidden v)) := by
  rw [← hg.containing?_eq_none_iff]
  rw [liftExpr_address] at hresolved ⊢
  intro e
  have hannotated {found : Symbol × Int64} (hfound : s.globals.containing? a = some found) :
      Annotates s.globals e a := by
    obtain ⟨v, distance⟩ := found
    obtain ⟨hat, -⟩ | ⟨start, t, n, hat, hlt, ht, hn, hreaches, rfl⟩ :=
      Globals.containing?_cases hfound
    · exact annotates_start hg hat
    · exact annotates_inside hg hnames hforward hfound hat hlt ht hn hreaches
        (hsizes v.name v t (hg.of_at? hat).1 ht) hresolved
  cases hfound : s.globals.containing? a with
  | none =>
    have hplain : e = .int a.toInt64 .uint := liftAddress_plain hfound
    exact ⟨.inl hplain, fun _ => rfl, fun _ => hplain⟩
  | some found =>
    refine ⟨.inr (hannotated hfound), fun hplain => ?_, nofun⟩
    obtain ⟨v, start, offset, -, -, he, -⟩ := hannotated hfound
    exact absurd (he.symm.trans hplain) nofun

/-! ### A block of pairs -/

/-- Two pairs of integers at 0x1000, under a type name. -/
def blockVariable : Symbol :=
  { name := "block", type := some (.named "row"), address := some 0x1000 }

/-- An integer at the same address. -/
def firstVariable : Symbol :=
  { name := "first", type := some (.int .int), address := some 0x1000 }

/-- The table with the block. -/
def blockGlobals : Globals := (rowGlobals.addVariable blockVariable).2

/-- The table with the block, and then with the integer. -/
def sharedGlobals : Globals := (blockGlobals.addVariable firstVariable).2

theorem registered_blockGlobals : blockGlobals.Registered := by
  have hrow : rowGlobals.Registered :=
    ⟨by simp [rowGlobals, pairGlobals], by simp [rowGlobals, pairGlobals],
      by simp [rowGlobals, pairGlobals]⟩
  exact hrow.addVariable blockVariable

theorem sameTypes_blockGlobals : rowGlobals.SameTypes blockGlobals :=
  rowGlobals.sameTypes_addVariable blockVariable

theorem sameTypes_sharedGlobals : rowGlobals.SameTypes sharedGlobals :=
  sameTypes_blockGlobals.trans (blockGlobals.sameTypes_addVariable firstVariable)

theorem variablesFit_blockGlobals : blockGlobals.VariablesFit := by
  have hrow : rowGlobals.VariablesFit := by
    intro name v t hv
    simp [Globals.named?, rowGlobals, pairGlobals] at hv
  refine hrow.addVariable fun t ht => ?_
  obtain rfl : .named "row" = t := Option.some.inj ht
  exact sizesFit_gridType.inside (.element .self)

theorem variablesFit_sharedGlobals : sharedGlobals.VariablesFit := by
  refine variablesFit_blockGlobals.addVariable fun t ht => ?_
  obtain rfl : .int .int = t := Option.some.inj ht
  intro u n hu hn
  have hself : u = .int .int := by
    refine hu.mem_of_closed (S := (· = .int .int)) ?_ ?_ ?_ rfl <;> intros <;> contradiction
  have hsize : blockGlobals.size? (.int .int) = some 4 := by decide
  rw [hself, hsize] at hn
  obtain rfl := Option.some.inj hn
  decide

/-- Twelve bytes into the block: the second field of its second pair. -/
theorem liftExpr_address_exact_in_block :
    let e := (liftExpr (.const (.address 0x100c)) ⟨{}, 0x400, []⟩
      (Session.start { globals := blockGlobals } "f")).1
    e.reasons = [] ∧ Annotates blockGlobals e 0x100c ∧
      e = .globalAddress 0x100c
        (.addressOf (.var blockVariable (.index (.int 1 .int) (.field "second" 1 .none)))) := by
  intro e
  have he : e = .globalAddress 0x100c
      (.addressOf (.var blockVariable (.index (.int 1 .int) (.field "second" 1 .none)))) := rfl
  have hresolved : e.reasons = [] := by
    rw [he]
    simp [Expr.reasons, Lval.reasons, Offset.reasons]
  have hexact := liftExpr_address_exact registered_blockGlobals
    (sameTypes_blockGlobals.distinctFields distinctFields_pairGlobals)
    (sameTypes_blockGlobals.forwardFields forwardFields_rowGlobals) variablesFit_blockGlobals 0x100c
    hresolved
  refine ⟨hresolved, hexact.1.resolve_left fun hplain => ?_, he⟩
  exact absurd (he.symm.trans hplain) (by simp)

/-- **An integer hides the block.** It was registered later at the same address, so the twelfth byte
of the block is a plain number, although the block stores it. -/
theorem hidden_storage_missed :
    let e := (liftExpr (.const (.address 0x100c)) ⟨{}, 0x400, []⟩
      (Session.start { globals := sharedGlobals } "f")).1
    sharedGlobals.Registered ∧ sharedGlobals.DistinctFields ∧ sharedGlobals.ForwardFields ∧
      sharedGlobals.VariablesFit ∧ e = .int 0x100c .uint ∧
      sharedGlobals.named? "block" = some blockVariable ∧
      sharedGlobals.Stores blockVariable 0x100c := by
  intro e
  have hsize : sharedGlobals.size? (.named "row") = some 16 := by decide
  refine ⟨registered_blockGlobals.addVariable firstVariable,
    sameTypes_sharedGlobals.distinctFields distinctFields_pairGlobals,
    sameTypes_sharedGlobals.forwardFields forwardFields_rowGlobals, variablesFit_sharedGlobals, rfl,
    rfl, 0x1000, .named "row", 16, rfl, rfl, hsize, by decide, by decide⟩

end LiftM

end FactLift
