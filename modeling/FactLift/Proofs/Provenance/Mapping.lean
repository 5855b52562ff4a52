import FactLift.Proofs.MultiMap
import FactLift.Provenance.Mapping

/-! Mapping nodes one after the other.

A mapping is kept in both directions, and a call that moves a node has to change both. `Inverse`
says that the two directions agree; `Inverse.register` is the step and `Inverse.registerAll` the
run. `registerAll_reports` counts the reports of a run: there is one for every call that finds its
node mapped elsewhere. `Mentions.of_registerAll` says where the numbers of a mapping come from. -/

namespace FactLift

/-- A call that maps a low-level node to a high-level one. -/
structure Registration where
  low : Nat
  high : Nat
  site : Option UInt64

namespace NodeMapping

/-- Makes calls one after the other and collects their reports. -/
def registerAll (kind : NodeKind) : NodeMapping → List Registration → NodeMapping × List Diagnostic
  | m, [] => (m, [])
  | m, call :: calls =>
    let (next, report) := m.register kind call.low call.high call.site
    let (last, reports) := registerAll kind next calls
    (last, report.toList ++ reports)

/-- Whether a low-level node is mapped, but not to this high-level node. -/
def mappedElsewhere (m : NodeMapping) (low high : Nat) : Bool :=
  (m.high? low).any (· != high)

/-- The numbers that stand anywhere in a mapping. A high-level node stays in it when its last
low-level node is taken away. -/
inductive Mentions (m : NodeMapping) (id : Nat) : Prop
  | low {high : Nat} (h : m.high? id = some high)
  | high {low : Nat} (h : m.high? low = some id)
  | listed {high : Nat} (h : id ∈ m.lows high)
  | key (h : m.lowsOf.contains id)

/-- The two directions agree, and no node is listed twice. -/
structure Inverse (m : NodeMapping) : Prop where
  mem_lows : ∀ low high, low ∈ m.lows high ↔ m.high? low = some high
  nodup : ∀ high, (m.lows high).Nodup

/-! ### One call -/

section Register

variable (m : NodeMapping) (kind : NodeKind) (low high : Nat) (site : Option UInt64)

/-- A low-level node that is not mapped yet is mapped without a report. -/
theorem register_of_none {m : NodeMapping} {low : Nat} (h : m.high? low = none) :
    m.register kind low high site = (⟨m.highOf.insert low high, m.lowsOf.add high low⟩, none) := by
  rw [register, h]

/-- A node is mapped for the first time, is where it should be, or is moved with a report. -/
theorem register_cases :
    (m.high? low = none ∧ m.register kind low high site =
      (⟨m.highOf.insert low high, m.lowsOf.add high low⟩, none)) ∨
    (m.high? low = some high ∧ m.register kind low high site = (m, none)) ∨
    (∃ before, m.high? low = some before ∧ before ≠ high ∧ m.register kind low high site =
      (⟨m.highOf.insert low high, (m.lowsOf.remove before low).add high low⟩,
        some (overwritten kind low before high site))) := by
  cases hbefore : m.high? low with
  | none => exact .inl ⟨rfl, register_of_none kind high site hbefore⟩
  | some before =>
    rw [register, hbefore]
    by_cases heq : before = high
    · exact .inr (.inl ⟨congrArg some heq, if_pos heq⟩)
    · exact .inr (.inr ⟨before, rfl, heq, if_neg heq⟩)

/-- The node is mapped as asked for, and the others stay. -/
theorem high?_register (id : Nat) :
    (m.register kind low high site).1.high? id = if low = id then some high else m.high? id := by
  have hinsert : (m.highOf.insert low high)[id]? =
      if low = id then some high else m.highOf[id]? := by
    simp [Std.TreeMap.getElem?_insert]
  rcases m.register_cases kind low high site with ⟨-, h⟩ | ⟨hsame, h⟩ | ⟨before, -, -, h⟩
  · rw [h]
    exact hinsert
  · rw [h]
    split
    next heq => rw [← heq, hsame]
    · rfl
  · rw [h]
    exact hinsert

/-- A call reports that it moves a node, and nothing else. -/
theorem register_report :
    (m.register kind low high site).2.toList.map Diagnostic.kind =
      if m.mappedElsewhere low high then [.provenanceOverwrite] else [] := by
  unfold mappedElsewhere
  rcases m.register_cases kind low high site with ⟨hat, h⟩ | ⟨hat, h⟩ | ⟨before, hat, hne, h⟩
  · simp [h, hat]
  · simp [h, hat]
  · simp [h, hat, hne, overwritten]

end Register

variable {m : NodeMapping} (kind : NodeKind) (low high : Nat) (site : Option UInt64)

/-- The node leaves every list but that of its new high-level node. -/
theorem Inverse.mem_lows_register (h : m.Inverse) (id group : Nat) :
    id ∈ (m.register kind low high site).1.lows group ↔
      if low = id then high = group else id ∈ m.lows group := by
  rcases m.register_cases kind low high site with
    ⟨hnone, heq⟩ | ⟨hsame, heq⟩ | ⟨before, hbefore, hne, heq⟩
  · have hfresh : low ∉ m.lows group := by simp [h.mem_lows, hnone]
    rw [heq, lows, MultiMap.mem_get_add]
    grind [lows]
  · have hlisted : low ∈ m.lows group ↔ high = group := by simp [h.mem_lows, hsame]
    rw [heq]
    grind
  · have hlisted : low ∈ m.lows group ↔ before = group := by simp [h.mem_lows, hbefore]
    rw [heq, lows, MultiMap.mem_get_add, MultiMap.mem_get_remove]
    grind [lows]

/-- **The step.** A call keeps the two directions in agreement. -/
theorem Inverse.register (h : m.Inverse) : (m.register kind low high site).1.Inverse where
  mem_lows id group := by
    rw [h.mem_lows_register, high?_register]
    split
    · simp
    · exact h.mem_lows id group
  nodup group := by
    rcases m.register_cases kind low high site with ⟨-, heq⟩ | ⟨-, heq⟩ | ⟨before, -, -, heq⟩
    · rw [heq]
      exact MultiMap.nodup_get_add (h.nodup group)
    · rw [heq]
      exact h.nodup group
    · rw [heq]
      exact MultiMap.nodup_get_add (MultiMap.nodup_get_remove (h.nodup group))

/-- Only the numbers of a call are new in the mapping. -/
theorem Mentions.of_register {id : Nat} (h : (m.register kind low high site).1.Mentions id) :
    id = low ∨ id = high ∨ m.Mentions id := by
  cases h with
  | low h =>
    rw [high?_register] at h
    split at h
    next heq => exact .inl heq.symm
    · exact .inr (.inr (.low h))
  | high h =>
    rw [high?_register] at h
    split at h
    next heq => exact .inr (.inl (Option.some.inj h).symm)
    · exact .inr (.inr (.high h))
  | listed h =>
    rcases m.register_cases kind low high site with ⟨-, heq⟩ | ⟨-, heq⟩ | ⟨before, -, -, heq⟩
    · rw [heq, lows, MultiMap.mem_get_add] at h
      rcases h with h | h
      · exact .inr (.inr (.listed h))
      · exact .inl h.2
    · rw [heq] at h
      exact .inr (.inr (.listed h))
    · rw [heq, lows, MultiMap.mem_get_add, MultiMap.mem_get_remove] at h
      rcases h with h | h
      · exact .inr (.inr (.listed h.1))
      · exact .inl h.2
  | key h =>
    rcases m.register_cases kind low high site with ⟨-, heq⟩ | ⟨-, heq⟩ | ⟨before, -, -, heq⟩
    · rw [heq] at h
      rcases MultiMap.contains_of_contains_add h with h | h
      · exact .inr (.inl h.symm)
      · exact .inr (.inr (.key h))
    · rw [heq] at h
      exact .inr (.inr (.key h))
    · rw [heq] at h
      rcases MultiMap.contains_of_contains_add h with h | h
      · exact .inr (.inl h.symm)
      · exact .inr (.inr (.key (by rwa [MultiMap.contains_remove] at h)))

/-! ### All calls -/

theorem inverse_empty : Inverse {} where
  mem_lows low high := by simp [lows, high?]
  nodup high := by simp [lows]

theorem not_mentions_empty (id : Nat) : ¬Mentions {} id := by
  rintro (h | h | h | h)
  · simp [high?] at h
  · simp [high?] at h
  · simp [lows] at h
  · cases h

variable (calls : List Registration)

/-- **The run.** However the nodes are moved, the two directions agree. -/
theorem Inverse.registerAll (h : m.Inverse) : (m.registerAll kind calls).1.Inverse := by
  induction calls generalizing m with
  | nil => exact h
  | cons call calls ih => exact ih (h.register kind call.low call.high call.site)

theorem registerAll_append (later : List Registration) :
    (m.registerAll kind (calls ++ later)).1 =
      ((m.registerAll kind calls).1.registerAll kind later).1 := by
  induction calls generalizing m with
  | nil => rfl
  | cons call calls ih => exact ih

/-- The last call decides. -/
theorem high?_registerAll_concat (call : Registration) :
    (m.registerAll kind (calls ++ [call])).1.high? call.low = some call.high := by
  rw [registerAll_append]
  exact (high?_register _ _ _ _ _ _).trans (if_pos rfl)

/-- Whatever is in the mapping was there before or stands in a call. -/
theorem Mentions.of_registerAll {id : Nat} (h : (m.registerAll kind calls).1.Mentions id) :
    m.Mentions id ∨ ∃ call ∈ calls, id = call.low ∨ id = call.high := by
  induction calls generalizing m with
  | nil => exact .inl h
  | cons call calls ih =>
    rcases ih h with h | ⟨later, hmem, hid⟩
    · rcases h.of_register with hid | hid | h
      · exact .inr ⟨call, List.mem_cons_self, .inl hid⟩
      · exact .inr ⟨call, List.mem_cons_self, .inr hid⟩
      · exact .inl h
    · exact .inr ⟨later, List.mem_cons_of_mem _ hmem, hid⟩

/-- How many calls find their node mapped elsewhere by the calls before them. -/
def moves (kind : NodeKind) (m : NodeMapping) (calls : List Registration) : Nat :=
  calls.zipIdx.countP fun (call, k) =>
    (m.registerAll kind (calls.take k)).1.mappedElsewhere call.low call.high

theorem moves_cons (call : Registration) :
    m.moves kind (call :: calls) =
      (if m.mappedElsewhere call.low call.high then 1 else 0) +
        (m.register kind call.low call.high call.site).1.moves kind calls := by
  rw [moves, List.zipIdx_cons', List.countP_cons, List.countP_map, Nat.add_comm]
  rfl

/-- A run reports moves, and each once. -/
theorem registerAll_reports :
    (m.registerAll kind calls).2.map Diagnostic.kind =
      List.replicate (m.moves kind calls) .provenanceOverwrite := by
  induction calls generalizing m with
  | nil => rfl
  | cons call calls ih =>
    rw [moves_cons, ← List.replicate_append_replicate, ← ih, registerAll, List.map_append,
      register_report]
    split <;> rfl

/-- Going away and coming back are two moves; staying, and leading to itself, is none. -/
example :
    moves .lvalue {} [⟨1, 2, none⟩, ⟨1, 3, none⟩, ⟨1, 3, none⟩, ⟨1, 2, none⟩, ⟨2, 2, none⟩] = 2 := by
  decide

end NodeMapping

end FactLift
