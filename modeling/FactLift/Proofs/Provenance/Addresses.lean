import FactLift.Proofs.Provenance.Kept

/-! The addresses that instructions come from.

They are kept twice: under the instruction, where each recording replaces the one before it, and
under the address, where the instructions of all recordings stay. So an instruction stands at every
address that is on record for it, and also at those that were on record for it before
(`instrsAt_outlive_addresses`). -/

namespace FactLift

open C

namespace Recording

/-- The instruction that a call records addresses for, and the addresses. -/
def origin? : Recording → Option (Nat × List UInt64)
  | addAddresses i addresses => some (i.id, addresses)
  | _ => none

def addresses? (instr : Nat) (call : Recording) : Option (List UInt64) :=
  (call.origin?.filter (·.1 = instr)).map (·.2)

/-- The instruction that a call records at an address. -/
def placed? (a : UInt64) (call : Recording) : Option Nat :=
  (call.origin?.filter (a ∈ ·.2)).map (·.1)

/-- The instructions that calls record at an address, in the order in which they came. -/
def instrsAt (calls : List Recording) (a : UInt64) : List Nat :=
  (calls.filterMap (placed? a)).eraseDups

theorem placed?_eq_some {call : Recording} {a : UInt64} {instr : Nat} :
    call.placed? a = some instr ↔ ∃ as, call.addresses? instr = some as ∧ a ∈ as := by
  simp only [placed?, addresses?]
  cases call.origin? with
  | none => simp
  | some o =>
    by_cases ha : a ∈ o.2 <;> by_cases hi : o.1 = instr <;> simp [Option.filter, ha, hi]

theorem mem_instrsAt {calls : List Recording} {a : UInt64} {instr : Nat} :
    instr ∈ instrsAt calls a ↔ ∃ as ∈ calls.filterMap (addresses? instr), a ∈ as := by
  simp only [instrsAt, List.mem_eraseDups, List.mem_filterMap, placed?_eq_some]
  constructor
  · rintro ⟨call, hcall, as, has, ha⟩
    exact ⟨as, ⟨call, hcall, has⟩, ha⟩
  · rintro ⟨as, ⟨call, hcall, has⟩, ha⟩
    exact ⟨call, hcall, as, has, ha⟩

end Recording

namespace Provenance

def addressesOf (p : Provenance) (instr : Nat) : List UInt64 :=
  p.instrAddresses[instr]?.getD []

/-! ### The tables after calls -/

/-- The two tables after a call. -/
theorem addressTables_record (p : Provenance) (call : Recording) :
    (p.record call).1.instrAddresses =
        call.origin?.elim p.instrAddresses (fun o => p.instrAddresses.insert o.1 o.2) ∧
      (p.record call).1.addressInstrs =
        call.origin?.elim p.addressInstrs
          (fun o => o.2.foldl (fun m a => m.add a o.1) p.addressInstrs) := by
  cases call with
  | addReachingDefs e flows => cases flows <;> exact ⟨rfl, rfl⟩
  | addFlagReachingDefs e flows => cases flows <;> exact ⟨rfl, rfl⟩
  | addDefUse l flow => cases flow <;> exact ⟨rfl, rfl⟩
  | addDefUseHigh l flow => cases flow <;> exact ⟨rfl, rfl⟩
  | _ => exact ⟨rfl, rfl⟩

theorem instrAddresses_record (instr : Nat) (p : Provenance) (call : Recording) :
    (p.record call).1.instrAddresses[instr]? =
      (call.addresses? instr).or p.instrAddresses[instr]? := by
  rw [(addressTables_record p call).1, Recording.addresses?]
  cases call.origin? with
  | none => rfl
  | some o => by_cases hi : o.1 = instr <;> simp [Std.TreeMap.getElem?_insert, Option.filter, hi]

theorem instrsAt_record {p : Provenance} {a : UInt64} {xs : List Nat}
    (h : p.instrsAt a = xs.eraseDups) (call : Recording) :
    (p.record call).1.instrsAt a = (xs ++ (call.placed? a).toList).eraseDups := by
  rw [Provenance.instrsAt, (addressTables_record p call).2, Recording.placed?]
  cases call.origin? with
  | none => exact h.trans (by simp)
  | some o =>
    refine (MultiMap.get_addUnder_arrived h o.2 o.1).trans ?_
    by_cases ha : a ∈ o.2 <;> simp [Option.filter, ha]

theorem instrsAt_recordAll (calls : List Recording) (a : UInt64) :
    (recordAll {} calls).instrsAt a = Recording.instrsAt calls a := by
  have hrun (p : Provenance) (xs : List Nat) (h : p.instrsAt a = xs.eraseDups) :
      (p.recordAll calls).instrsAt a = (xs ++ calls.filterMap (Recording.placed? a)).eraseDups := by
    induction calls generalizing p xs with
    | nil => simpa [recordAll] using h
    | cons call calls ih =>
      rw [recordAll, List.foldl_cons, ← recordAll, ih _ _ (instrsAt_record h call)]
      cases hplaced : call.placed? a <;> simp [hplaced]
  exact hrun {} [] (MultiMap.get_empty a)

theorem addressesOf_recordAll (calls : List Recording) (instr : Nat) :
    (recordAll {} calls).addressesOf instr =
      (calls.filterMap (Recording.addresses? instr)).getLast?.getD [] := by
  rw [addressesOf, view_recordAll (·.instrAddresses[instr]?) (instrAddresses_record instr),
    Std.TreeMap.getElem?_emptyc, Option.or_none]

/-! ### Both ways -/

/-- **An instruction stays at its earlier addresses.** After any calls, the addresses of an
instruction are those of the last call that records some for it, while it stands at the addresses of
all such calls. So whatever is on record for an instruction leads back to it, and the two tables
agree about it exactly if its last call repeats all its earlier addresses. -/
theorem instrsAt_outlive_addresses (calls : List Recording) (instr : Nat) :
    let p := recordAll {} calls
    let given := calls.filterMap (Recording.addresses? instr)
    p.addressesOf instr = given.getLast?.getD [] ∧
      (∀ a, instr ∈ p.instrsAt a ↔ ∃ as ∈ given, a ∈ as) ∧
      (∀ a ∈ p.addressesOf instr, instr ∈ p.instrsAt a) ∧
      ((∀ a, instr ∈ p.instrsAt a ↔ a ∈ p.addressesOf instr) ↔
        ∀ as ∈ given, as ⊆ p.addressesOf instr) := by
  intro p given
  have hlast : p.addressesOf instr = given.getLast?.getD [] := addressesOf_recordAll calls instr
  have hplaced (a : UInt64) : instr ∈ p.instrsAt a ↔ ∃ as ∈ given, a ∈ as := by
    rw [instrsAt_recordAll, Recording.mem_instrsAt]
  have hback (a : UInt64) (ha : a ∈ p.addressesOf instr) : instr ∈ p.instrsAt a := by
    rw [hlast] at ha
    cases hgiven : given.getLast? with
    | none => simp [hgiven] at ha
    | some as => exact (hplaced a).mpr ⟨as, List.mem_of_getLast? hgiven, by simpa [hgiven] using ha⟩
  refine ⟨hlast, hplaced, hback, fun hagree as has a ha => ?_,
    fun hrepeats a => ⟨fun hin => ?_, hback a⟩⟩
  · exact (hagree a).mp ((hplaced a).mpr ⟨as, has, ha⟩)
  · obtain ⟨as, has, ha⟩ := (hplaced a).mp hin
    exact hrepeats as has ha

/-- An instruction that is recorded again at another address still stands at the first one, which is
no longer on record for it. -/
theorem earlier_address_left :
    let p := recordAll {}
      [.addAddresses ⟨1, .nop "moved"⟩ [0x10], .addAddresses ⟨1, .nop "moved"⟩ [0x20]]
    1 ∈ p.instrsAt 0x10 ∧ 0x10 ∉ p.addressesOf 1 := by
  decide

end Provenance

end FactLift
