import FactLift.Roster
import Mathlib.Data.List.Induction

/-! Rosters are consistent: the map of a roster gives every value its first position among the
items, however appending and inserting are mixed. -/

namespace FactLift.Roster

variable {α : Type} [Ord α] {r r' : Roster α} {a : α}

@[ext] theorem ext (h : r.items = r'.items) : r = r' := by
  cases r with
  | mk items positions consistent =>
    cases r' with
    | mk items' positions' consistent' =>
      obtain rfl : items = items' := h
      obtain rfl := consistent
      obtain rfl := consistent'
      rfl

/-- A roster of some values, each appended. -/
def ofList (as : List α) : Roster α :=
  as.foldl push ∅

/-- A roster is made of its values by appending them. -/
theorem ofList_toList (r : Roster α) : ofList r.toList = r := by
  have hitems (as : List α) (r : Roster α) : (as.foldl push r).items = r.items ++ as.toArray := by
    induction as generalizing r with
    | nil => simp
    | cons a as ih => simp [ih, push]
  refine ext ?_
  rw [ofList, hitems]
  exact Array.empty_append.trans r.items.toArray_toList

theorem insert_of_find?_some [Std.TransOrd α] {position : Nat} (h : r.find? a = some position) :
    r.insert a = (position, r) := by
  unfold insert
  split
  next found hfound => rw [Option.some.inj (hfound.symm.trans h)]
  next hmissing => exact absurd (hmissing.symm.trans h) nofun

/-- A value that is not there is appended. -/
theorem insert_of_find?_none [Std.TransOrd α] (h : r.find? a = none) :
    r.insert a = (r.size, r.push a) := by
  unfold insert
  split
  next found hfound => exact absurd (hfound.symm.trans h) nofun
  next => exact Prod.ext rfl (ext rfl)

variable [Std.TransOrd α] [Std.LawfulEqOrd α] [DecidableEq α]

/-- **The step.** One more value is to be found at its own position, unless it was there before. -/
theorem getElem?_insertIfNew {items : Array α} {positions : Std.TreeMap α Nat}
    (h : ∀ b, positions[b]? = items.findIdx? (· == b)) (a b : α) :
    (positions.insertIfNew a items.size)[b]? = (items.push a).findIdx? (· == b) := by
  have hmem : a ∈ positions ↔ (items.findIdx? (· == a)).isSome := by
    rw [← h a, Std.TreeMap.mem_iff_isSome_getElem?]
  rw [Std.TreeMap.getElem?_insertIfNew, Array.findIdx?_push, h b]
  by_cases hab : a = b
  · subst hab
    cases hfound : items.findIdx? (· == a) <;> simp [hmem, hfound]
  · have hcompare : compare a b ≠ .eq := fun h => hab (Std.LawfulEqOrd.eq_of_compare h)
    simp [hab, hcompare]

/-- **The run.** Every value is to be found at its first position. -/
theorem getElem?_firstPositions (items : Array α) (b : α) :
    (firstPositions items)[b]? = items.findIdx? (· == b) := by
  obtain ⟨items, rfl⟩ : ∃ l : List α, items = l.toArray := ⟨items.toList, (items.toArray_toList).symm⟩
  induction items using List.reverseRecOn generalizing b with
  | nil => simp [firstPositions]
  | append_singleton items a ih =>
    rw [← List.push_toArray, firstPositions_push]
    exact getElem?_insertIfNew ih a b

theorem find?_eq_findIdx? (r : Roster α) (a : α) : r.find? a = r.items.findIdx? (· == a) := by
  rw [find?, r.consistent, getElem?_firstPositions]

/-- The map gives a value its first position among the items, and no other value any. -/
theorem find?_eq_some {position : Nat} :
    r.find? a = some position ↔
      r.get? position = some a ∧ ∀ earlier < position, r.get? earlier ≠ some a := by
  rw [find?_eq_findIdx?, Array.findIdx?_eq_some_iff_getElem]
  constructor
  · rintro ⟨hlt, hat, hbefore⟩
    refine ⟨?_, fun earlier hearlier h => ?_⟩
    · rw [← eq_of_beq hat]
      exact Array.getElem?_eq_getElem hlt
    · obtain ⟨_, h⟩ := Array.getElem?_eq_some_iff.mp h
      exact hbefore earlier hearlier (beq_iff_eq.mpr h)
  · rintro ⟨h, hbefore⟩
    obtain ⟨hlt, hat⟩ := Array.getElem?_eq_some_iff.mp h
    refine ⟨hlt, beq_iff_eq.mpr hat, fun earlier hearlier hbeq => hbefore earlier hearlier ?_⟩
    rw [← eq_of_beq hbeq]
    exact Array.getElem?_eq_getElem _

theorem find?_eq_none : r.find? a = none ↔ ∀ position, r.get? position ≠ some a := by
  rw [find?_eq_findIdx?, Array.findIdx?_eq_none_iff]
  constructor
  · intro h position hat
    have := h a (Array.mem_of_getElem? hat)
    simp at this
  · intro h b hmem
    obtain ⟨position, hlt, rfl⟩ := Array.mem_iff_getElem.mp hmem
    refine beq_eq_false_iff_ne.mpr fun heq => h position ?_
    rw [← heq]
    exact Array.getElem?_eq_getElem hlt

end FactLift.Roster
