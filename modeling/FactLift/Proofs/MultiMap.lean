import FactLift.MultiMap
import Std.Data.TreeMap.Lemmas

/-! The lists of a multimap after values are added or taken out.

A list has every value once, at the place where it arrived first, so it is what `eraseDups` leaves of
all the values that were added. -/

namespace FactLift

theorem eraseDups_concat {β : Type} [BEq β] [LawfulBEq β] (xs : List β) (x : β) :
    (xs ++ [x]).eraseDups = if x ∈ xs.eraseDups then xs.eraseDups else xs.eraseDups ++ [x] := by
  rw [List.eraseDups_append]
  by_cases hx : x ∈ xs <;> simp [List.removeAll, List.eraseDups_cons, hx]

namespace MultiMap

variable {α β : Type} [Ord α] [Std.TransOrd α]

@[simp] theorem get_empty (key : α) : (∅ : MultiMap α β).get key = [] :=
  Std.TreeMap.getD_emptyc

variable [BEq β]

theorem get_add_self {m : MultiMap α β} {key : α} {value : β}
    (h : (m.get key).contains value = false) :
    (m.add key value).get key = m.get key ++ [value] := by
  rw [add, h, if_neg Bool.false_ne_true, get, Std.TreeMap.getD_insert_self]

variable [Std.LawfulEqOrd α]

theorem get_add_of_ne (m : MultiMap α β) {key k : α} (value : β) (h : key ≠ k) :
    (m.add key value).get k = m.get k := by
  unfold add
  split
  · rfl
  · rw [get, Std.TreeMap.getD_insert, if_neg (by simpa using h), get]

/-- Adding a value adds no other key. -/
theorem contains_of_contains_add {m : MultiMap α β} {key k : α} {value : β}
    (h : (m.add key value).contains k) : key = k ∨ m.contains k := by
  unfold add at h
  split at h
  · exact .inr h
  · simpa [contains, Std.TreeMap.contains_insert] using h

/-- Taking a value out leaves the keys alone. -/
theorem contains_remove (m : MultiMap α β) (key k : α) (value : β) :
    (m.remove key value).contains k = m.contains k := by
  unfold remove
  split
  next hkey =>
    by_cases hk : key = k
    · subst hk
      simpa [contains] using hkey.symm
    · simp [contains, Std.TreeMap.contains_insert, hk]
  · rfl

variable [DecidableEq α]

theorem get_add (m : MultiMap α β) (key : α) (value : β) (k : α) :
    (m.add key value).get k =
      if key = k ∧ (m.get k).contains value = false then m.get k ++ [value] else m.get k := by
  by_cases hk : key = k
  · subst hk
    cases hv : (m.get key).contains value with
    | false => simpa using get_add_self hv
    | true => rw [add, hv, if_pos rfl, if_neg (by simp)]
  · rw [get_add_of_ne m value hk, if_neg (by simp [hk])]

theorem get_remove (m : MultiMap α β) (key : α) (value : β) (k : α) :
    (m.remove key value).get k =
      if key = k then (m.get k).filter (· != value) else m.get k := by
  unfold remove contains
  by_cases hk : key = k
  · subst hk
    cases hc : m.lists.contains key with
    | true => rw [if_pos rfl, if_pos rfl, get, Std.TreeMap.getD_insert_self]
    | false =>
      have hnil : m.get key = [] := Std.TreeMap.getD_eq_fallback_of_contains_eq_false hc
      simp [hnil]
  · rw [if_neg hk]
    split
    · rw [get, Std.TreeMap.getD_insert, if_neg (by simpa using hk), get]
    · rfl

theorem nodup_get_remove {m : MultiMap α β} {key k : α} {value : β} (h : (m.get k).Nodup) :
    ((m.remove key value).get k).Nodup := by
  rw [get_remove]
  split
  · exact h.filter _
  · exact h

variable [LawfulBEq β]

theorem nodup_get_add {m : MultiMap α β} {key k : α} {value : β} (h : (m.get k).Nodup) :
    ((m.add key value).get k).Nodup := by
  rw [get_add]
  split
  next hnew =>
    have hnot : value ∉ m.get k := by simpa using hnew.2
    exact List.nodup_append.mpr ⟨h, by simp, by grind⟩
  · exact h

theorem mem_get_add {m : MultiMap α β} {key k : α} {value x : β} :
    x ∈ (m.add key value).get k ↔ x ∈ m.get k ∨ key = k ∧ x = value := by
  rw [get_add]
  grind

theorem mem_get_remove {m : MultiMap α β} {key k : α} {value x : β} :
    x ∈ (m.remove key value).get k ↔ x ∈ m.get k ∧ ¬(key = k ∧ x = value) := by
  rw [get_remove]
  grind

/-! ### Every value that was added -/

section Arrived

variable {m : MultiMap α β} {k : α} {xs : List β}

theorem get_add_arrived (h : m.get k = xs.eraseDups) (key : α) (value : β) :
    (m.add key value).get k = (xs ++ if key = k then [value] else []).eraseDups := by
  rw [get_add, h]
  by_cases hk : key = k
  · rw [if_pos hk, eraseDups_concat]
    by_cases hx : value ∈ xs <;> simp [hk, hx]
  · simp [hk]

/-- One value is added under several keys. -/
theorem get_addUnder_arrived (h : m.get k = xs.eraseDups) (keys : List α) (value : β) :
    (keys.foldl (fun m key => m.add key value) m).get k =
      (xs ++ if k ∈ keys then [value] else []).eraseDups := by
  induction keys generalizing m xs with
  | nil => simpa using h
  | cons key rest ih =>
    rw [List.foldl_cons, ih (get_add_arrived h key value)]
    by_cases hk : key = k
    · subst hk
      -- the value is there already when it comes again
      have htwice : (xs ++ [value] ++ [value]).eraseDups = (xs ++ [value]).eraseDups := by
        rw [eraseDups_concat, if_pos (by simp)]
      by_cases hrest : key ∈ rest
      · simpa [hrest] using htwice
      · simp [hrest]
    · simp [hk, Ne.symm hk]

end Arrived

end MultiMap

end FactLift
