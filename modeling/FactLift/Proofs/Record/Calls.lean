import FactLift.Proofs.Record.Table

/-! Tables of records after any calls.

A `Table.Call` mints or loads a record, whether or not it succeeds. No call changes what an index
holds (`extends_after`), and since the records before it stay too, an index that was found first
stays the first (`Extends.find?`). `calls_append_only` puts this together for every sequence of
calls on an empty table. -/

namespace FactLift.Table

variable {t t' : Table} {i : Nat} {c : Content}

/-! ### Looking up -/

theorem content?_eq_none : t.content? i = none ↔ i = 0 ∨ t.size < i := by
  cases i with
  | zero => exact iff_of_true rfl (.inl rfl)
  | succ position =>
    simp only [content?, Roster.get?, Array.getElem?_eq_none_iff, size, Roster.size]
    omega

theorem exists_get_iff : (∃ r, t.get i = .ok r) ↔ 1 ≤ i ∧ i ≤ t.size := by
  have hcontent : (∃ r, t.get i = .ok r) ↔ t.content? i ≠ none := by
    rw [Option.ne_none_iff_exists']
    constructor
    · rintro ⟨r, h⟩
      exact ⟨r.content, (get_eq_ok.mp h).1⟩
    · rintro ⟨c, h⟩
      exact ⟨⟨i, c⟩, get_of_content? h⟩
  rw [hcontent, Ne, content?_eq_none]
  omega

theorem get_eq_ok_mk : t.get i = .ok ⟨i, c⟩ ↔ t.content? i = some c :=
  get_eq_ok.trans (and_iff_left rfl)

/-- The index that is found is the smallest one with the content. -/
theorem find?_eq_some :
    t.find? c = some i ↔ t.content? i = some c ∧ ∀ j < i, t.content? j ≠ some c := by
  cases i with
  | zero => exact iff_of_false (by simp [find?]) fun h => nomatch h.1
  | succ position =>
    have hfind : t.find? c = some (position + 1) ↔ t.entries.find? c = some position := by
      simp [find?]
    rw [hfind, Roster.find?_eq_some]
    refine and_congr_right fun _ => ⟨fun hbefore j hj => ?_, fun hbefore earlier hearlier => ?_⟩
    · cases j with
      | zero => nofun
      | succ earlier => exact hbefore earlier (by omega)
    · exact hbefore (earlier + 1) (by omega)

theorem find?_eq_none : t.find? c = none ↔ ∀ i, t.content? i ≠ some c := by
  rw [find?, Option.map_eq_none_iff, Roster.find?_eq_none]
  constructor
  · intro h i
    cases i with
    | zero => nofun
    | succ position => exact h position
  · exact fun h position => h (position + 1)

/-! ### Single calls -/

/-- A record more at the next index, and no other change to a lookup by index. -/
structure GrownBy (t : Table) (c : Content) (t' : Table) : Prop where
  size : t'.size = t.size + 1
  get : ∀ i, t'.get i = if i = t.size + 1 then .ok ⟨i, c⟩ else t.get i

theorem grownBy_push (t : Table) (c : Content) :
    t.GrownBy c { t with entries := t.entries.push c } where
  size := Array.size_push ..
  get i := by
    cases i with
    | zero => rfl
    | succ position =>
      have hslot : (t.entries.push c).get? position =
          if position = t.entries.items.size then some c else t.entries.get? position :=
        Array.getElem?_push
      simp only [get, hslot, size, Roster.size, Nat.add_right_cancel_iff]
      by_cases h : position = t.entries.items.size
      · simp only [if_pos h]
      · simp only [if_neg h]

theorem add_of_find?_some (h : t.find? c = some i) : t.add c = (i, t) := by
  obtain ⟨position, hposition, rfl⟩ := Option.map_eq_some_iff.mp h
  simp only [add, Roster.insert_of_find?_some hposition]

theorem add_of_find?_none (h : t.find? c = none) :
    t.add c = (t.size + 1, { t with entries := t.entries.push c }) := by
  simp only [add, Roster.insert_of_find?_none (Option.map_eq_none_iff.mp h), size]

theorem insertAt_eq_ok :
    t.insertAt i c = .ok t' ↔ i = t.size + 1 ∧ t' = { t with entries := t.entries.push c } := by
  simp only [insertAt]
  split
  next h => exact ok_inj.trans ⟨fun heq => ⟨h, heq.symm⟩, fun heq => heq.2.symm⟩
  next h => exact iff_of_false (by simp) fun heq => h heq.1

/-! ### Any calls -/

/-- A call that mints or loads a record. -/
inductive Call
  | add (c : Content)
  | insertAt (i : Nat) (c : Content)

/-- The table after a call. A load that is refused leaves the table as it was. -/
def after (t : Table) : Call → Table
  | .add c => (t.add c).2
  | .insertAt i c => (t.insertAt i c).toOption.getD t

def afterAll (t : Table) (calls : List Call) : Table :=
  calls.foldl after t

theorem after_insertAt_of_error {e : Error} (h : t.insertAt i c = .error e) :
    t.after (.insertAt i c) = t := by
  rw [after, h]
  rfl

/-- **The step.** No call changes what an index holds. -/
theorem extends_after (t : Table) (call : Call) : t.Extends (t.after call) := by
  cases call with
  | add c => exact t.extends_add c
  | insertAt i c =>
    cases h : t.insertAt i c with
    | ok t' =>
      rw [after, h]
      exact extends_insertAt h
    | error e =>
      rw [after_insertAt_of_error h]
      exact .refl t

/-- **The run.** Nor do any calls. -/
theorem extends_afterAll (t : Table) (calls : List Call) : t.Extends (t.afterAll calls) := by
  induction calls generalizing t with
  | nil => exact .refl t
  | cons call calls ih => exact fun i c h => ih (t.after call) (t.extends_after call h)

/-- What comes first stays first: the records before it are kept along with it. -/
theorem Extends.find? (h : t.Extends t') (hfind : t.find? c = some i) : t'.find? c = some i := by
  obtain ⟨hat, hbefore⟩ := find?_eq_some.mp hfind
  refine find?_eq_some.mpr ⟨h hat, fun j hj => ?_⟩
  cases hj' : t.content? j with
  | some c' =>
    rw [h hj', ← hj']
    exact hbefore j hj
  | none =>
    rcases content?_eq_none.mp hj' with rfl | hlt
    · nofun
    · have := index_le_size hat
      omega

/-- What a table of interned records does: its list and its map agree, indices are dense and keep
their records, lookups by content go to the first record, minting shares a record that is there, and
loading takes the next index only. -/
structure Interns (t : Table) : Prop where
  mapped : ∀ (c : Content) (p : Nat), t.entries.positions[c]? = some p ↔
    t.entries.items[p]? = some c ∧ ∀ q < p, t.entries.items[q]? ≠ some c
  dense : ∀ i, (∃ r, t.get i = .ok r) ↔ 1 ≤ i ∧ i ≤ t.size
  keeps : ∀ i r, t.get i = .ok r → ∀ later, (t.afterAll later).get i = .ok r
  first : ∀ c i, t.find? c = some i ↔ t.get i = .ok ⟨i, c⟩ ∧ ∀ j < i, t.get j ≠ .ok ⟨j, c⟩
  missing : ∀ c, t.find? c = none ↔ ∀ i, t.get i ≠ .ok ⟨i, c⟩
  stays_first : ∀ c i, t.find? c = some i → ∀ later, (t.afterAll later).find? c = some i
  add_found : ∀ c i, t.find? c = some i → t.add c = (i, t)
  add_missing : ∀ c, t.find? c = none →
    (t.add c).1 = t.size + 1 ∧ t.GrownBy c (t.add c).2
  accepts : ∀ i c, (∃ t', t.insertAt i c = .ok t') ↔ i = t.size + 1
  loads : ∀ i c t', t.insertAt i c = .ok t' → t'.get i = .ok ⟨i, c⟩ ∧ t.GrownBy c t'
  refuses : ∀ i c e, t.insertAt i c = .error e → t.after (.insertAt i c) = t

/-- **Tables only grow at their end.** After any calls on an empty table, in any order and with any
outcome, the table interns its records. -/
theorem calls_append_only (name : String) (calls : List Call) :
    (afterAll { name } calls).Interns where
  mapped _ _ := Roster.find?_eq_some
  dense _ := exists_get_iff
  keeps i r h later := by
    obtain ⟨hcontent, hindex⟩ := get_eq_ok.mp h
    exact get_eq_ok.mpr ⟨extends_afterAll _ later hcontent, hindex⟩
  first c i := by simp only [Ne, get_eq_ok_mk, find?_eq_some]
  missing c := by simp only [Ne, get_eq_ok_mk, find?_eq_none]
  stays_first c i h later := (extends_afterAll _ later).find? h
  add_found _ _ := add_of_find?_some
  add_missing c h := by
    rw [add_of_find?_none h]
    exact ⟨rfl, grownBy_push _ c⟩
  accepts i c := by simp only [insertAt_eq_ok, exists_and_left, exists_eq, and_true]
  loads i c t' h := by
    obtain ⟨rfl, rfl⟩ := insertAt_eq_ok.mp h
    have hgrown := grownBy_push (afterAll { name } calls) c
    exact ⟨(hgrown.get _).trans (if_pos rfl), hgrown⟩
  refuses _ _ _ := after_insertAt_of_error

/-- A record that is loaded again takes a slot of its own and is still found at the first one. -/
example :
    let t := afterAll { name := "xpr" }
      [.insertAt 1 ⟨["c"], [1]⟩, .insertAt 2 ⟨["c"], [1]⟩, .insertAt 4 ⟨["v"], [1]⟩,
        .add ⟨["c"], [1]⟩]
    t.size = 2 ∧ t.find? ⟨["c"], [1]⟩ = some 1 := by
  decide +kernel

end FactLift.Table
