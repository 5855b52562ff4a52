import FactLift.Instruction.Opcode

/-! Hexadecimal numerals tell numbers apart, and so do the labels made from them. -/

namespace FactLift

namespace Text

theorem digitChar_inj {m n : Nat} (hm : m < 16) (hn : n < 16)
    (h : m.digitChar = n.digitChar) : m = n := by
  have hall : ∀ m n : Fin 16, m.val.digitChar = n.val.digitChar → m = n := by decide
  exact Fin.mk.inj (hall ⟨m, hm⟩ ⟨n, hn⟩ h)

theorem toDigits_inj {m n : Nat} (h : Nat.toDigits 16 m = Nat.toDigits 16 n) : m = n := by
  induction m using Nat.strongRecOn generalizing n with
  | ind m ih =>
    have hb : 1 < 16 := by decide
    rw [Nat.toDigits_eq_if hb (n := m), Nat.toDigits_eq_if hb (n := n)] at h
    by_cases hm : m < 16
    · by_cases hn : n < 16
      · rw [if_pos hm, if_pos hn] at h
        exact digitChar_inj hm hn (List.singleton_inj.mp h)
      · -- one digit against at least two
        rw [if_pos hm, if_neg hn] at h
        have hlen := congrArg List.length h
        simp at hlen
    · by_cases hn : n < 16
      · rw [if_neg hm, if_pos hn] at h
        have hlen := congrArg List.length h
        simp at hlen
      · rw [if_neg hm, if_neg hn] at h
        obtain ⟨hinit, hlast⟩ := List.append_inj' h rfl
        have hdiv := ih (m / 16) (by omega) hinit
        have hmod := digitChar_inj (Nat.mod_lt m (by decide)) (Nat.mod_lt n (by decide))
          (List.singleton_inj.mp hlast)
        omega

theorem hexDigits_inj {m n : Nat} (h : hexDigits m = hexDigits n) : m = n :=
  toDigits_inj (String.ofList_injective h)

end Text

/-- Different addresses have different labels. -/
theorem addressLabel_inj {a b : UInt64} (h : addressLabel a = addressLabel b) : a = b := by
  have hdigits : Text.hexDigits a.toNat = Text.hexDigits b.toNat := (String.append_right_inj _).mp h
  exact UInt64.toNat_inj.mp (Text.hexDigits_inj hdigits)

@[simp] theorem addressLabel_eq_iff {a b : UInt64} : addressLabel a = addressLabel b ↔ a = b :=
  ⟨addressLabel_inj, congrArg addressLabel⟩

end FactLift
