import FactLift.Lift.Instruction
import FactLift.Proofs.Provenance.Kept

/-! What the provenance holds about lifted instructions.

A `Traced` instruction is one in both forms, with the address and the size of what it was lifted
from. `p.Records entries next` says that the instruction tables of `p` hold exactly these entries:
each is linked both ways and kept under its numbers, with its address and its bytes, and the numbers
from `next` on are free. `Records.recordInstr` is the step: two forms with the next two numbers add
an entry, and nothing that was recorded before is touched. -/

namespace FactLift

open C

/-- An instruction in both forms, and where it comes from. -/
structure Traced where
  address : UInt64
  size : Nat
  forms : Forms Instr

namespace Traced

def ids (e : Traced) : List Nat :=
  [e.forms.low.id, e.forms.high.id]

/-- The low-level form has the first number, and the high-level form the second. -/
def Links (e : Traced) (low high : Nat) : Prop :=
  e.forms.low.id = low ∧ e.forms.high.id = high

/-- The two forms are linked to each other only, and are kept under their numbers with their address
and their bytes. -/
structure IsRecorded (e : Traced) (p : Provenance) : Prop where
  high : p.instrs.high? e.forms.low.id = some e.forms.high.id
  lows : p.instrs.lows e.forms.high.id = [e.forms.low.id]
  low_kept : p.instructions[e.forms.low.id]? = some e.forms.low.tree
  high_kept : p.instructions[e.forms.high.id]? = some e.forms.high.tree
  addresses : ∀ id ∈ e.ids, p.instrAddresses[id]? = some [e.address]
  spans : ∀ id ∈ e.ids, p.spans[id]? = some ⟨e.address, e.size⟩

variable {e : Traced} {p : Provenance}

theorem Links.mem_ids {low high : Nat} (h : e.Links low high) : low ∈ e.ids ∧ high ∈ e.ids := by
  simp [ids, h.1, h.2]

theorem IsRecorded.highInstruction? (h : e.IsRecorded p) :
    p.highInstruction? e.forms.low.id = some e.forms.high.tree := by
  simp only [Provenance.highInstruction?, h.high]
  exact h.high_kept

theorem IsRecorded.lowInstructions (h : e.IsRecorded p) :
    p.lowInstructions e.forms.high.id = [e.forms.low.tree] := by
  simp [Provenance.lowInstructions, h.lows, h.low_kept]

end Traced

namespace NodeMapping

variable {m : NodeMapping} {low : Nat}

/-- No low-level node from a number on is mapped. -/
def FreeFrom (m : NodeMapping) (next : Nat) : Prop :=
  ∀ id, next ≤ id → m.high? id = none

/-- Mapping the first free node reports nothing and leaves those behind it free. -/
theorem FreeFrom.register (h : m.FreeFrom low) (kind : NodeKind) (high : Nat)
    (site : Option UInt64) :
    (m.register kind low high site).2 = none ∧
      (m.register kind low high site).1.FreeFrom (low + 2) := by
  rw [register_of_none kind high site (h low (Nat.le_refl low))]
  refine ⟨rfl, fun id hid => ?_⟩
  rw [high?, Std.TreeMap.getElem?_insert, if_neg (by simp; omega)]
  exact h id (by omega)

end NodeMapping

namespace Provenance

/-- Links the two forms of an instruction and records where it comes from. -/
def recordInstr (p : Provenance) (i : Forms Instr) (address : UInt64) (size : Nat) : Provenance :=
  let linked := (p.mapInstr i.low i.high (some address)).1
  let placed := (linked.addAddresses i.low [address]).addAddresses i.high [address]
  (placed.addSpan i.low ⟨address, size⟩).addSpan i.high ⟨address, size⟩

/-- The instruction tables hold these entries and nothing else, and no number from `next` on is in
use. -/
structure Records (p : Provenance) (entries : List Traced) (next : Nat) : Prop where
  recorded : ∀ e ∈ entries, e.IsRecorded p
  ids_lt : ∀ id ∈ entries.flatMap Traced.ids, id < next
  nodup : (entries.flatMap Traced.ids).Nodup
  instrsAt : ∀ a, p.instrsAt a = (entries.filter (·.address = a)).flatMap Traced.ids
  mapped : ∀ low high, p.instrs.high? low = some high → ∃ e ∈ entries, e.Links low high
  linked : ∀ high, ∀ low ∈ p.instrs.lows high, ∃ e ∈ entries, e.Links low high
  kept : ∀ id ∈ p.instructions, id ∈ entries.flatMap Traced.ids

/-! ### The tables after an instruction is recorded -/

theorem keepInstr_instructions (p : Provenance) (i : Instr) (id : Nat) :
    (p.keepInstr i).instructions[id]? =
      if i.id = id then p.instructions[id]?.or (some i.tree) else p.instructions[id]? := by
  rw [keepInstr, getElem?_insertIfNew_or]

section Tables

variable {p : Provenance} {i : Forms Instr} (address : UInt64) (size : Nat)

theorem recordInstr_instrs (h : p.instrs.high? i.low.id = none) :
    (p.recordInstr i address size).instrs =
      ⟨p.instrs.highOf.insert i.low.id i.high.id, p.instrs.lowsOf.add i.high.id i.low.id⟩ := by
  show (p.instrs.register .instruction i.low.id i.high.id (some address)).1 = _
  rw [NodeMapping.register_of_none _ _ _ h]

/-- Only the two forms are kept anew. -/
theorem recordInstr_instructions (id : Nat) (hlow : i.low.id ≠ id) (hhigh : i.high.id ≠ id) :
    (p.recordInstr i address size).instructions[id]? = p.instructions[id]? := by
  simp only [recordInstr, addSpan, addAddresses, mapInstr, keepInstr_instructions, hlow, hhigh,
    if_false]

theorem recordInstr_instructions_low (hkept : p.instructions[i.low.id]? = none)
    (hne : i.high.id ≠ i.low.id) :
    (p.recordInstr i address size).instructions[i.low.id]? = some i.low.tree := by
  simp [recordInstr, addSpan, addAddresses, mapInstr, keepInstr_instructions, hne, hkept]

theorem recordInstr_instructions_high (hkept : p.instructions[i.high.id]? = none)
    (hne : i.low.id ≠ i.high.id) :
    (p.recordInstr i address size).instructions[i.high.id]? = some i.high.tree := by
  simp [recordInstr, addSpan, addAddresses, mapInstr, keepInstr_instructions, hne, hkept]

theorem recordInstr_addresses (id : Nat) :
    (p.recordInstr i address size).instrAddresses[id]? =
      if id = i.low.id ∨ id = i.high.id then some [address] else p.instrAddresses[id]? := by
  show ((p.instrAddresses.insert i.low.id [address]).insert i.high.id [address])[id]? = _
  simp only [Std.TreeMap.getElem?_insert, eq_comm]
  grind

theorem recordInstr_spans (id : Nat) :
    (p.recordInstr i address size).spans[id]? =
      if id = i.low.id ∨ id = i.high.id then some ⟨address, size⟩ else p.spans[id]? := by
  show ((p.spans.insert i.low.id ⟨address, size⟩).insert i.high.id ⟨address, size⟩)[id]? = _
  simp only [Std.TreeMap.getElem?_insert, eq_comm]
  grind

theorem recordInstr_instrsAt (hlow : i.low.id ∉ p.instrsAt address)
    (hhigh : i.high.id ∉ p.instrsAt address) (hne : i.high.id ≠ i.low.id) :
    (p.recordInstr i address size).instrsAt address =
      p.instrsAt address ++ [i.low.id, i.high.id] := by
  show ((p.addressInstrs.add address i.low.id).add address i.high.id).get address = _
  have hfirst : (p.addressInstrs.add address i.low.id).get address =
      p.instrsAt address ++ [i.low.id] :=
    MultiMap.get_add_self (by simpa [instrsAt] using hlow)
  rw [MultiMap.get_add_self, hfirst, List.append_assoc]
  · rfl
  · rw [hfirst]
    simpa using ⟨hhigh, hne⟩

theorem recordInstr_instrsAt_of_ne {a : UInt64} (h : address ≠ a) :
    (p.recordInstr i address size).instrsAt a = p.instrsAt a := by
  show ((p.addressInstrs.add address i.low.id).add address i.high.id).get a = _
  rw [MultiMap.get_add_of_ne _ _ h, MultiMap.get_add_of_ne _ _ h, instrsAt]

end Tables

/-! ### The step -/

namespace Records

variable {p : Provenance} {entries : List Traced} {next : Nat}

/-- An empty provenance holds nothing. -/
theorem empty (next : Nat) : Records {} [] next where
  recorded _ he := absurd he List.not_mem_nil
  ids_lt _ hid := absurd hid List.not_mem_nil
  nodup := List.nodup_nil
  instrsAt a := MultiMap.get_empty a
  mapped low high h := by simp [NodeMapping.high?] at h
  linked high low h := by simp [NodeMapping.lows] at h
  kept id h := by simp at h

/-! No number from `next` on is in use. -/

theorem lt_of_mem (h : p.Records entries next) {e : Traced} (he : e ∈ entries) {id : Nat}
    (hid : id ∈ e.ids) : id < next :=
  h.ids_lt id (List.mem_flatMap.mpr ⟨e, he, hid⟩)

theorem unmapped (h : p.Records entries next) : p.instrs.FreeFrom next := by
  intro id hid
  cases hmapped : p.instrs.high? id with
  | none => rfl
  | some high =>
    obtain ⟨e, he, hlinks⟩ := h.mapped id high hmapped
    have := h.lt_of_mem he hlinks.mem_ids.1
    omega

theorem unlinked (h : p.Records entries next) {id : Nat} (hid : next ≤ id) :
    p.instrs.lows id = [] := by
  refine List.eq_nil_iff_forall_not_mem.mpr fun low hlow => ?_
  obtain ⟨e, he, hlinks⟩ := h.linked id low hlow
  have := h.lt_of_mem he hlinks.mem_ids.2
  omega

theorem unkept (h : p.Records entries next) {id : Nat} (hid : next ≤ id) :
    p.instructions[id]? = none := by
  refine Std.TreeMap.getElem?_eq_none fun hkept => ?_
  have := h.ids_lt id (h.kept id hkept)
  omega

/-- What is recorded at an address is in use. -/
theorem not_mem_instrsAt (h : p.Records entries next) {id : Nat} (hid : next ≤ id) (a : UInt64) :
    id ∉ p.instrsAt a := by
  intro hmem
  rw [h.instrsAt a] at hmem
  obtain ⟨e, he, hmem⟩ := List.mem_flatMap.mp hmem
  have := h.lt_of_mem (List.mem_filter.mp he).1 hmem
  omega

variable {i : Forms Instr} (address : UInt64) (size : Nat)

/-- An earlier entry stays as it is. -/
theorem recordInstr_old (h : p.Records entries next) (hlow : i.low.id = next)
    (hhigh : i.high.id = next + 1) {e : Traced} (he : e ∈ entries) :
    e.IsRecorded (p.recordInstr i address size) := by
  have hold := h.recorded e he
  have hlt : ∀ id ∈ e.ids, id < next := fun _ => h.lt_of_mem he
  have hl : e.forms.low.id < next := hlt _ (by simp [Traced.ids])
  have hh : e.forms.high.id < next := hlt _ (by simp [Traced.ids])
  have hinstrs := recordInstr_instrs address size (i := i) (h.unmapped i.low.id (by omega))
  constructor
  · rw [hinstrs, NodeMapping.high?, Std.TreeMap.getElem?_insert, if_neg (by simp; omega)]
    exact hold.high
  · rw [hinstrs, NodeMapping.lows, MultiMap.get_add_of_ne _ _ (by omega)]
    exact hold.lows
  · rw [recordInstr_instructions _ _ _ (by omega) (by omega)]
    exact hold.low_kept
  · rw [recordInstr_instructions _ _ _ (by omega) (by omega)]
    exact hold.high_kept
  · intro id hid
    have := hlt id hid
    rw [recordInstr_addresses, if_neg (by omega)]
    exact hold.addresses id hid
  · intro id hid
    have := hlt id hid
    rw [recordInstr_spans, if_neg (by omega)]
    exact hold.spans id hid

/-- The new entry is recorded. -/
theorem recordInstr_new (h : p.Records entries next) (hlow : i.low.id = next)
    (hhigh : i.high.id = next + 1) :
    (⟨address, size, i⟩ : Traced).IsRecorded (p.recordInstr i address size) := by
  have hinstrs := recordInstr_instrs address size (i := i) (h.unmapped i.low.id (by omega))
  constructor
  · rw [hinstrs, NodeMapping.high?, Std.TreeMap.getElem?_insert_self]
  · have hlows : p.instrs.lowsOf.get i.high.id = [] := h.unlinked (by omega)
    rw [hinstrs, NodeMapping.lows, MultiMap.get_add_self (by rw [hlows]; rfl), hlows]
    rfl
  · exact recordInstr_instructions_low _ _ (h.unkept (by omega)) (by omega)
  · exact recordInstr_instructions_high _ _ (h.unkept (by omega)) (by omega)
  · intro id hid
    rw [recordInstr_addresses, if_pos (by simpa [Traced.ids] using hid)]
  · intro id hid
    rw [recordInstr_spans, if_pos (by simpa [Traced.ids] using hid)]

/-- **The step.** Two forms with the next two numbers add an entry behind the others. -/
theorem recordInstr (h : p.Records entries next) (hlow : i.low.id = next)
    (hhigh : i.high.id = next + 1) :
    (p.recordInstr i address size).Records (entries ++ [⟨address, size, i⟩]) (next + 2) := by
  have hinstrs := recordInstr_instrs address size (i := i) (h.unmapped i.low.id (by omega))
  have hids : (entries ++ [(⟨address, size, i⟩ : Traced)]).flatMap Traced.ids =
      entries.flatMap Traced.ids ++ [next, next + 1] := by
    simp [Traced.ids, hlow, hhigh]
  constructor
  · intro e he
    rcases List.mem_append.mp he with he | he
    · exact h.recordInstr_old address size hlow hhigh he
    · rw [List.mem_singleton.mp he]
      exact h.recordInstr_new address size hlow hhigh
  · intro id hid
    rw [hids, List.mem_append] at hid
    rcases hid with hid | hid
    · have := h.ids_lt id hid
      omega
    · simp at hid
      omega
  · rw [hids, List.nodup_append]
    refine ⟨h.nodup, by simp, fun id hid id' hid' => ?_⟩
    have := h.ids_lt id hid
    simp at hid'
    omega
  · intro a
    by_cases ha : address = a
    · subst ha
      rw [recordInstr_instrsAt _ _ (h.not_mem_instrsAt (by omega) _)
        (h.not_mem_instrsAt (by omega) _) (by omega), h.instrsAt]
      simp [Traced.ids]
    · rw [recordInstr_instrsAt_of_ne _ _ ha, h.instrsAt]
      simp [ha]
  · intro low high hmapped
    rw [hinstrs, NodeMapping.high?, Std.TreeMap.getElem?_insert] at hmapped
    split at hmapped
    next heq =>
      exact ⟨_, List.mem_append_right _ (List.mem_singleton_self _), by simpa using heq,
        Option.some.inj hmapped⟩
    next =>
      obtain ⟨e, he, hlinks⟩ := h.mapped low high hmapped
      exact ⟨e, List.mem_append_left _ he, hlinks⟩
  · intro high low hlinked
    rw [hinstrs] at hlinked
    by_cases hid : i.high.id = high
    · subst hid
      have hlows : p.instrs.lowsOf.get i.high.id = [] := h.unlinked (by omega)
      rw [NodeMapping.lows, MultiMap.get_add_self (by rw [hlows]; rfl), hlows] at hlinked
      exact ⟨_, List.mem_append_right _ (List.mem_singleton_self _),
        (List.mem_singleton.mp hlinked).symm, rfl⟩
    · rw [NodeMapping.lows, MultiMap.get_add_of_ne _ _ hid] at hlinked
      obtain ⟨e, he, hlinks⟩ := h.linked high low hlinked
      exact ⟨e, List.mem_append_left _ he, hlinks⟩
  · intro id hkept
    rw [hids, List.mem_append]
    by_cases hid : id = next ∨ id = next + 1
    · right
      simpa using hid
    · left
      refine h.kept id ?_
      rw [Std.TreeMap.mem_iff_isSome_getElem?,
        recordInstr_instructions _ _ _ (by omega) (by omega)] at hkept
      rwa [Std.TreeMap.mem_iff_isSome_getElem?]

end Records

end Provenance

end FactLift
