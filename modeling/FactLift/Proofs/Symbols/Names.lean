import FactLift.Proofs.Text.Hex
import FactLift.Symbols.Locals
import Std.Data.String.ToInt
import Std.Data.String.ToNat

/-! The names of made-up variables tell apart what they stand for: a register and a site, a frame
offset, the number of a temporary, an address. -/

namespace FactLift

/-- A text is cut in one way only at the last separator. -/
theorem cut_at_last_inj {α : Type} {sep : α} {xs ys xs' ys' : List α} (hys : sep ∉ ys)
    (hys' : sep ∉ ys') (h : xs ++ sep :: ys = xs' ++ sep :: ys') : xs = xs' ∧ ys = ys' := by
  rcases List.append_eq_append_iff.mp h with ⟨gap, rfl, hgap⟩ | ⟨gap, rfl, hgap⟩
  · cases gap with
    | nil => simpa using hgap
    | cons a gap =>
      -- the separator of the longer cut would stand in the rest of the shorter one
      obtain ⟨-, rfl⟩ := List.cons.inj hgap
      exact absurd (List.mem_append_right gap List.mem_cons_self) hys
  · cases gap with
    | nil => simpa using hgap.symm
    | cons a gap =>
      obtain ⟨-, rfl⟩ := List.cons.inj hgap
      exact absurd (List.mem_append_right gap List.mem_cons_self) hys'

theorem Text.underscore_not_mem_toDigits (n : Nat) : '_' ∉ Nat.toDigits 16 n := by
  induction n using Nat.strongRecOn with
  | ind n ih =>
    rw [Nat.toDigits_eq_if (by decide)]
    split
    · simp
    · have hinit := ih (n / 16) (by omega)
      simp [hinit]

theorem ssaName_inj {r r' : String} {site site' : UInt64} (h : ssaName r site = ssaName r' site') :
    r = r' ∧ site = site' := by
  have hlists : r.toList ++ '_' :: Nat.toDigits 16 site.toNat =
      r'.toList ++ '_' :: Nat.toDigits 16 site'.toNat := by
    simpa [ssaName, Text.hexDigits] using congrArg String.toList h
  obtain ⟨hregister, hsite⟩ := cut_at_last_inj (Text.underscore_not_mem_toDigits _)
    (Text.underscore_not_mem_toDigits _) hlists
  exact ⟨String.toList_injective hregister, UInt64.toNat_inj.mp (Text.toDigits_inj hsite)⟩

theorem slotName_inj {a b : Int64} (h : slotName a = slotName b) : a = b := by
  have hapart (x y : String) : "localvar_" ++ x ≠ "stack_" ++ y := by
    intro heq
    simpa using congrArg String.toList heq
  unfold slotName at h
  split at h
  next ha =>
    split at h
    next hb =>
      have habs : a.toInt.natAbs = b.toInt.natAbs :=
        Nat.repr_injective ((String.append_right_inj _).mp h)
      have := Int64.lt_iff_toInt_lt.mp ha
      have := Int64.lt_iff_toInt_lt.mp hb
      exact Int64.toInt_inj.mp (by simp at *; omega)
    next hb => exact absurd h (hapart _ _)
  next ha =>
    split at h
    next hb => exact absurd h.symm (hapart _ _)
    next hb =>
      have htexts : a.toInt.repr = b.toInt.repr := (String.append_right_inj _).mp h
      exact Int64.toInt_inj.mp (Int.repr_injective htexts)

theorem temporaryName_inj {m n : Nat} (h : temporaryName m = temporaryName n) : m = n :=
  Nat.repr_injective ((String.append_right_inj _).mp h)

theorem Globals.unknownVariable_name_inj {a b : UInt64}
    (h : (unknownVariable a).name = (unknownVariable b).name) : a = b :=
  UInt64.toNat_inj.mp (Text.hexDigits_inj ((String.append_right_inj _).mp h))

end FactLift
