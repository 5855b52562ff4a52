import FactLift.Proofs.Except
import FactLift.Proofs.Roster
import FactLift.Record.Table

/-! What records hold, and which records tables hold.

The accessors of a record succeed exactly if its content has what they ask for. The contents of a
table by index are its view: minting and loading keep every content where it is (`Table.Extends`),
and minting gives an index at which the content stands. -/

namespace FactLift

/-! ### Records -/

/-- The argument at a position as an index, if it is not negative. -/
def Content.index? (c : Content) (n : Nat) : Option Nat :=
  c.args[n]?.bind fun raw => raw.toInt.toNat?

theorem Content.length_of_index? {c : Content} {n i : Nat} (h : c.index? n = some i) :
    n < c.args.length := by
  obtain ⟨raw, hraw, -⟩ := Option.bind_eq_some_iff.mp h
  exact (List.getElem?_eq_some_iff.mp hraw).1

namespace Record

variable {r : Record} {table : String} {n : Nat}

theorem tag_eq_ok {t : String} : r.tag table n = .ok t ↔ r.content.tags[n]? = some t := by
  unfold tag
  cases r.content.tags[n]? with
  | none => exact ⟨nofun, nofun⟩
  | some t' => exact ok_inj.trans Option.some_inj.symm

theorem arg_eq_ok {raw : Int64} : r.arg table n = .ok raw ↔ r.content.args[n]? = some raw := by
  unfold arg
  cases r.content.args[n]? with
  | none => exact ⟨nofun, nofun⟩
  | some raw' => exact ok_inj.trans Option.some_inj.symm

theorem argIndex_eq_ok {i : Nat} :
    r.argIndex table n = .ok i ↔ r.content.index? n = some i := by
  unfold argIndex Content.index?
  rw [bind_eq_ok, Option.bind_eq_some_iff]
  refine exists_congr fun raw => ?_
  rw [arg_eq_ok, Int.mem_toNat?, and_congr_right_iff]
  intro _
  have hneg : raw < 0 ↔ raw.toInt < 0 := Int64.lt_iff_toInt_lt
  split
  next h =>
    have := hneg.mp h
    exact iff_of_false nofun (by omega)
  next h =>
    have := mt hneg.mpr h
    refine ok_inj.trans ?_
    omega

theorem expect_eq_ok {tags args : Nat} {u : Unit} :
    r.expect table tags args = .ok u ↔
      tags ≤ r.content.tags.length ∧ args ≤ r.content.args.length := by
  simp only [expect, Record.tags, Record.args]
  split
  · exact iff_of_false nofun (by omega)
  · exact iff_of_true rfl (by omega)

/-- The kind of a record is its first tag. -/
theorem tag_of_kind {kind : String} (h : r.kind = kind) (hne : kind ≠ "") :
    r.content.tags[0]? = some kind := by
  simp only [Record.kind, Record.tags] at h
  cases htags : r.content.tags with
  | nil => simp [htags, hne.symm] at h
  | cons t ts =>
    rw [htags] at h
    exact congrArg some h

theorem kind_of_tag {c : Content} {kind : String} (i : Nat) (h : c.tags[0]? = some kind) :
    Record.kind ⟨i, c⟩ = kind := by
  simp only [Record.kind, Record.tags]
  cases htags : c.tags with
  | nil => simp [htags] at h
  | cons t ts =>
    rw [htags] at h
    exact Option.some.inj h

end Record

/-! ### Tables -/

namespace Table

variable {t : Table} {i : Nat} {c : Content}

/-- The content of the record at an index. -/
def content? (t : Table) : Nat → Option Content
  | 0 => none
  | position + 1 => t.entries.get? position

theorem get_eq_ok {r : Record} :
    t.get i = .ok r ↔ t.content? i = some r.content ∧ r.index = i := by
  unfold get
  cases i with
  | zero => exact iff_of_false nofun fun h => nomatch h.1
  | succ position =>
    simp only [content?]
    cases t.entries.get? position with
    | none => exact iff_of_false nofun fun h => nomatch h.1
    | some c =>
      rw [ok_inj, Option.some_inj]
      exact ⟨fun h => h ▸ ⟨rfl, rfl⟩, fun ⟨hc, hi⟩ => by rw [hc, ← hi]⟩

/-- The record at an index, by its content. -/
theorem get_of_content? (h : t.content? i = some c) : t.get i = .ok ⟨i, c⟩ :=
  get_eq_ok.mpr ⟨h, rfl⟩

theorem index_le_size (h : t.content? i = some c) : i ≤ t.size := by
  cases i with
  | zero => exact Nat.zero_le _
  | succ position => exact (Array.getElem?_eq_some_iff.mp h).1

/-- Every content of the one table is at its index in the other. -/
def Extends (t t' : Table) : Prop :=
  ∀ ⦃i c⦄, t.content? i = some c → t'.content? i = some c

theorem Extends.refl (t : Table) : t.Extends t :=
  fun _ _ => id

theorem extends_push (t : Table) (c : Content) :
    t.Extends { t with entries := t.entries.push c } := by
  intro i c' h
  cases i with
  | zero => exact h
  | succ position =>
    have hlt : position < t.entries.items.size := (Array.getElem?_eq_some_iff.mp h).1
    simp only [content?, Roster.get?, Roster.push] at h ⊢
    rw [Array.getElem?_push_lt hlt, ← h, Array.getElem?_eq_getElem hlt]

/-- Minting finds the content where it is, or appends it. -/
theorem add_cases (t : Table) (c : Content) :
    (t.add c).2.content? (t.add c).1 = some c ∧
      ((t.add c).2 = t ∨ (t.add c).2 = { t with entries := t.entries.push c }) := by
  unfold add
  cases hfind : t.entries.find? c with
  | some position =>
    rw [Roster.insert_of_find?_some hfind]
    exact ⟨(Roster.find?_eq_some.mp hfind).1, .inl rfl⟩
  | none =>
    rw [Roster.insert_of_find?_none hfind]
    exact ⟨Array.getElem?_push_size, .inr rfl⟩

theorem extends_add (t : Table) (c : Content) : t.Extends (t.add c).2 := by
  rcases (t.add_cases c).2 with h | h
  · rw [h]
    exact Extends.refl t
  · rw [h]
    exact extends_push t c

theorem extends_insertAt {t' : Table} (h : t.insertAt i c = .ok t') : t.Extends t' := by
  simp only [insertAt] at h
  split at h
  · rw [← Except.ok.inj h]
    exact extends_push t c
  · contradiction

end Table

end FactLift
