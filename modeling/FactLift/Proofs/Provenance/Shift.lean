import FactLift.Proofs.MultiMap
import FactLift.Proofs.Provenance.Records
import FactLift.Proofs.Symbols.Registered

/-! Records that differ in the numbers of their nodes.

Nodes are numbered on from wherever the last lift ended, so the records of two lifts of a function
are the same but for where their numbers start (`Provenance.Shifted`). Resolving goes through the
nodes in ascending order, and so it reports the same (`Shifted.dangling`). -/

namespace FactLift

open C

/-- Numbers of nodes of the three kinds. -/
structure Numbers where
  instr : Nat
  expr : Nat
  lval : Nat

/-! ### Tables by number -/

/-- Two tables that are the same, counted from two numbers, and empty before them. -/
structure ShiftedTable {β : Type} (start start' : Nat) (m m' : Std.TreeMap Nat β) : Prop where
  left : ∀ i ∈ m, start ≤ i
  right : ∀ i ∈ m', start' ≤ i
  same : ∀ n, m[start + n]? = m'[start' + n]?

namespace ShiftedTable

variable {β : Type} {start start' : Nat} {m m' : Std.TreeMap Nat β}

theorem empty : ShiftedTable start start' (∅ : Std.TreeMap Nat β) ∅ :=
  ⟨by simp, by simp, fun _ => by simp⟩

theorem insert (h : ShiftedTable start start' m m') (n : Nat) (v : β) :
    ShiftedTable start start' (m.insert (start + n) v) (m'.insert (start' + n) v) where
  left i hi := by
    rcases Std.TreeMap.mem_insert.mp hi with heq | hi
    · have := Std.LawfulEqOrd.compare_eq_iff_eq.mp heq
      omega
    · exact h.left i hi
  right i hi := by
    rcases Std.TreeMap.mem_insert.mp hi with heq | hi
    · have := Std.LawfulEqOrd.compare_eq_iff_eq.mp heq
      omega
    · exact h.right i hi
  same k := by simp [Std.TreeMap.getElem?_insert, h.same k]

/-- The entries of a table, counted from a number. -/
def entriesFrom (start : Nat) (m : Std.TreeMap Nat β) : List (Nat × β) :=
  m.toList.map fun (i, v) => (i - start, v)

theorem mem_entriesFrom (h : ∀ i ∈ m, start ≤ i) (n : Nat) (v : β) :
    (n, v) ∈ entriesFrom start m ↔ m[start + n]? = some v := by
  rw [entriesFrom, List.mem_map]
  constructor
  · rintro ⟨⟨i, w⟩, hmem, heq⟩
    have hi := Std.TreeMap.mem_toList_iff_getElem?_eq_some.mp hmem
    have hle := h i (Std.TreeMap.mem_iff_isSome_getElem?.mpr (by rw [hi]; rfl))
    obtain ⟨rfl, rfl⟩ : i - start = n ∧ w = v := by simpa using heq
    rw [show start + (i - start) = i by omega, hi]
  · intro hn
    exact ⟨(start + n, v), Std.TreeMap.mem_toList_iff_getElem?_eq_some.mpr hn, by simp⟩

theorem sorted_entriesFrom (h : ∀ i ∈ m, start ≤ i) :
    (entriesFrom start m).Pairwise fun x y => compare x.1 y.1 = .lt := by
  refine List.pairwise_map.mpr ?_
  have hsorted : m.toList.Pairwise fun x y => compare x.1 y.1 = .lt :=
    Std.TreeMap.ordered_keys_toList
  refine hsorted.imp_of_mem fun {x y} hx hy hlt => ?_
  have hle (z : Nat × β) (hz : z ∈ m.toList) : start ≤ z.1 := by
    refine h z.1 (Std.TreeMap.mem_iff_isSome_getElem?.mpr ?_)
    rw [Std.TreeMap.mem_toList_iff_getElem?_eq_some.mp hz]
    rfl
  have hx := hle x hx
  have hy := hle y hy
  rw [Nat.compare_eq_lt] at hlt ⊢
  show x.1 - start < y.1 - start
  omega

/-- The values are the same, in the same order. -/
theorem values (h : ShiftedTable start start' m m') :
    m.toList.map (·.2) = m'.toList.map (·.2) := by
  have hentries : entriesFrom start m = entriesFrom start' m' := by
    refine eq_of_sorted_keys (sorted_entriesFrom h.left) (sorted_entriesFrom h.right)
      fun ⟨n, v⟩ => ?_
    rw [mem_entriesFrom h.left, mem_entriesFrom h.right, h.same]
  have hvalues := congrArg (List.map (·.2)) hentries
  rwa [entriesFrom, entriesFrom, List.map_map, List.map_map] at hvalues

end ShiftedTable

/-! ### Provenance -/

namespace Provenance

/-- Two provenances of lifts that started from these numbers and are now at those: as many numbers
were given out, none is linked that was not, and the facts that are resolved later stand at the same
nodes. -/
structure Shifted (start start' now now' : Numbers) (p p' : Provenance) : Prop where
  exprs : ∃ n, now.expr = start.expr + n ∧ now'.expr = start'.expr + n
  lvals : ∃ n, now.lval = start.lval + n ∧ now'.lval = start'.lval + n
  freeInstrs : p.instrs.FreeFrom now.instr ∧ p'.instrs.FreeFrom now'.instr
  freeExprs : p.exprs.FreeFrom now.expr ∧ p'.exprs.FreeFrom now'.expr
  freeLvals : p.lvals.FreeFrom now.lval ∧ p'.lvals.FreeFrom now'.lval
  flags : ShiftedTable start.expr start'.expr p.flagReachingDefs p'.flagReachingDefs
  uses : ShiftedTable start.lval start'.lval p.defUses p'.defUses
  usesHigh : ShiftedTable start.lval start'.lval p.defUsesHigh p'.defUsesHigh
  covered : ∀ a, (p.instrsAt a).isEmpty = (p'.instrsAt a).isEmpty

theorem shifted_empty (start start' : Numbers) : Shifted start start' start start' {} {} where
  exprs := ⟨0, rfl, rfl⟩
  lvals := ⟨0, rfl, rfl⟩
  freeInstrs := ⟨fun _ _ => Std.TreeMap.getElem?_emptyc, fun _ _ => Std.TreeMap.getElem?_emptyc⟩
  freeExprs := ⟨fun _ _ => Std.TreeMap.getElem?_emptyc, fun _ _ => Std.TreeMap.getElem?_emptyc⟩
  freeLvals := ⟨fun _ _ => Std.TreeMap.getElem?_emptyc, fun _ _ => Std.TreeMap.getElem?_emptyc⟩
  flags := .empty
  uses := .empty
  usesHigh := .empty
  covered _ := rfl

variable {start start' now now' : Numbers} {p p' q q' : Provenance}

/-! ### Recording -/

/-- What is shifted is the same in both. -/
structure SameFacts (p q : Provenance) : Prop where
  instrs : q.instrs = p.instrs
  exprs : q.exprs = p.exprs
  lvals : q.lvals = p.lvals
  flagReachingDefs : q.flagReachingDefs = p.flagReachingDefs
  defUses : q.defUses = p.defUses
  defUsesHigh : q.defUsesHigh = p.defUsesHigh
  addressInstrs : q.addressInstrs = p.addressInstrs

theorem Shifted.congr (h : Shifted start start' now now' p p') (hp : p.SameFacts q)
    (hp' : p'.SameFacts q') : Shifted start start' now now' q q' where
  exprs := h.exprs
  lvals := h.lvals
  freeInstrs := by rw [hp.instrs, hp'.instrs]; exact h.freeInstrs
  freeExprs := by rw [hp.exprs, hp'.exprs]; exact h.freeExprs
  freeLvals := by rw [hp.lvals, hp'.lvals]; exact h.freeLvals
  flags := by rw [hp.flagReachingDefs, hp'.flagReachingDefs]; exact h.flags
  uses := by rw [hp.defUses, hp'.defUses]; exact h.uses
  usesHigh := by rw [hp.defUsesHigh, hp'.defUsesHigh]; exact h.usesHigh
  covered a := by
    rw [instrsAt, instrsAt, hp.addressInstrs, hp'.addressInstrs]
    exact h.covered a

theorem sameFacts_addReachingDefs (p : Provenance) (e : Tracked Expr) (flows : List Flow) :
    p.SameFacts (p.addReachingDefs e flows) := by
  unfold addReachingDefs
  split <;> exact ⟨rfl, rfl, rfl, rfl, rfl, rfl, rfl⟩

theorem sameFacts_addStore (p : Provenance) (l : Tracked Lval) : p.SameFacts (p.addStore l) :=
  ⟨rfl, rfl, rfl, rfl, rfl, rfl, rfl⟩

theorem sameFacts_addSpan (p : Provenance) (i : Instr) (span : ByteSpan) :
    p.SameFacts (p.addSpan i span) :=
  ⟨rfl, rfl, rfl, rfl, rfl, rfl, rfl⟩

theorem sameFacts_addConditionAddresses (p : Provenance) (e : Tracked Expr)
    (addresses : List UInt64) : p.SameFacts (p.addConditionAddresses e addresses) :=
  ⟨rfl, rfl, rfl, rfl, rfl, rfl, rfl⟩

/-- The same tree, under the same number counted from two starts. -/
structure ShiftedTree {α : Type} (start start' : Nat) (t t' : Tracked α) : Prop where
  id : ∃ n, t.id = start + n ∧ t'.id = start' + n
  tree : t.tree = t'.tree

section Facts

variable (h : Shifted start start' now now' p p')
include h

theorem Shifted.addFlagReachingDefs {e e' : Tracked Expr}
    (he : ShiftedTree start.expr start'.expr e e') (flows : List Flow) :
    Shifted start start' now now' (p.addFlagReachingDefs e flows)
      (p'.addFlagReachingDefs e' flows) := by
  obtain ⟨n, hid, hid'⟩ := he.id
  unfold Provenance.addFlagReachingDefs
  split
  · exact h
  · rw [hid, hid']
    exact ⟨h.exprs, h.lvals, h.freeInstrs, h.freeExprs, h.freeLvals, h.flags.insert n flows, h.uses,
      h.usesHigh, h.covered⟩

theorem Shifted.addDefUse {l l' : Tracked Lval} (hl : ShiftedTree start.lval start'.lval l l')
    (flow : Option Flow) :
    Shifted start start' now now' (p.addDefUse l flow) (p'.addDefUse l' flow) := by
  obtain ⟨n, hid, hid'⟩ := hl.id
  cases flow with
  | none => exact h
  | some f =>
    simp only [Provenance.addDefUse, hid, hid']
    exact ⟨h.exprs, h.lvals, h.freeInstrs, h.freeExprs, h.freeLvals, h.flags, h.uses.insert n f,
      h.usesHigh, h.covered⟩

theorem Shifted.addDefUseHigh {l l' : Tracked Lval} (hl : ShiftedTree start.lval start'.lval l l')
    (flow : Option Flow) :
    Shifted start start' now now' (p.addDefUseHigh l flow) (p'.addDefUseHigh l' flow) := by
  obtain ⟨n, hid, hid'⟩ := hl.id
  cases flow with
  | none => exact h
  | some f =>
    simp only [Provenance.addDefUseHigh, hid, hid']
    exact ⟨h.exprs, h.lvals, h.freeInstrs, h.freeExprs, h.freeLvals, h.flags, h.uses,
      h.usesHigh.insert n f, h.covered⟩

end Facts

/-- An address that an instruction comes from is covered from then on. -/
theorem isEmpty_instrsAt_addAddresses (p : Provenance) (i : Instr) (a b : UInt64) :
    ((p.addAddresses i [a]).instrsAt b).isEmpty = (a != b && (p.instrsAt b).isEmpty) := by
  show ((p.addressInstrs.add a i.id).get b).isEmpty = (a != b && (p.addressInstrs.get b).isEmpty)
  rw [MultiMap.get_add]
  by_cases hab : a = b
  · subst hab
    cases hmem : (p.addressInstrs.get a).contains i.id with
    | false => simp
    | true =>
      have hne : p.addressInstrs.get a ≠ [] := by
        intro hnil
        simp [hnil] at hmem
      simpa using hne
  · simp [hab]

theorem Shifted.addAddresses (h : Shifted start start' now now' p p') (i i' : Instr) (a : UInt64) :
    Shifted start start' now now' (p.addAddresses i [a]) (p'.addAddresses i' [a]) :=
  ⟨h.exprs, h.lvals, h.freeInstrs, h.freeExprs, h.freeLvals, h.flags, h.uses, h.usesHigh,
    fun b => by rw [isEmpty_instrsAt_addAddresses, isEmpty_instrsAt_addAddresses, h.covered b]⟩

/-! ### Resolving -/

theorem flatMap_values {β γ : Type} (xs : List (Nat × β)) (f : β → List γ) :
    (xs.flatMap fun (_, v) => f v) = (xs.map (·.2)).flatMap f := by
  rw [List.flatMap_map]

/-- Both report the same addresses without instructions, in the same order. -/
theorem Shifted.dangling (h : Shifted start start' now now' p p') : p.resolve.2 = p'.resolve.2 := by
  have hdangling : p.danglingOf = p'.danglingOf := by
    funext what f
    simp only [danglingOf, h.covered]
  have hflags : (spread p.flagReachingDefs).map (·.2) = (spread p'.flagReachingDefs).map (·.2) := by
    have hspread (m : Std.TreeMap Nat (List Flow)) :
        (spread m).map (·.2) = (m.toList.map (·.2)).flatten := by
      simp [spread, List.flatMap_def, Function.comp_def]
    rw [hspread, hspread, h.flags.values]
  simp only [resolve]
  rw [flatMap_values, flatMap_values p.defUses.toList, flatMap_values p.defUsesHigh.toList,
    hdangling, hflags, h.uses.values, h.usesHigh.values, ← flatMap_values,
    ← flatMap_values, ← flatMap_values]

end Provenance

end FactLift
