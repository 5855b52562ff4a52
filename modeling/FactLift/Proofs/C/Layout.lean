import FactLift.Proofs.Symbols.Displacement
import Mathlib.Data.List.Induction
import Mathlib.Order.Bounds.Defs

/-! Fields found by offset, against a scan of all fields.

The layout of a composite keeps its fields by offset: the starts ascend, and at each start stands
the field that is declared first among those that start there (`placeAll_spec`). So the field that
an offset falls into is the first declared one of those that start last at or before the offset
(`fieldAt?_eq_scan`), however the fields are ordered and however many of them share an offset. -/

namespace FactLift.C.Composite

variable {c : Composite} {start offset rest : Int64} {f : Field} {placed : List (Int64 × Field)}

/-- Each field starts after the one in front of it. -/
def Ascends (placed : List (Int64 × Field)) : Prop :=
  placed.Pairwise fun x y => x.1 < y.1

/-- The first field in order of declaration that starts at an offset. -/
def firstAt? (fields : List Field) (start : Int64) : Option Field :=
  fields.find? fun f => f.offset == some start

/-! ### Placing fields -/

theorem Ascends.place (h : Ascends placed) (start : Int64) (f : Field) :
    Ascends (place start f placed) := by
  induction placed with
  | nil => exact List.pairwise_singleton _ _
  | cons x rest ih =>
    obtain ⟨hfirst, hrest⟩ := List.pairwise_cons.mp h
    unfold Composite.place
    split
    next hlt =>
      refine List.pairwise_cons.mpr ⟨fun y hy => ?_, h⟩
      rcases List.mem_cons.mp hy with rfl | hy
      · exact hlt
      · exact Int64.lt_trans hlt (hfirst y hy)
    next hnlt =>
      split
      next => exact h
      next hne =>
        refine List.pairwise_cons.mpr ⟨fun y hy => ?_, ih hrest⟩
        rcases mem_place hy with rfl | hy
        · exact Int64.lt_of_le_of_ne (Int64.not_lt.mp hnlt) (Ne.symm hne)
        · exact hfirst y hy

/-- A field finds its place unless another one starts there. -/
theorem Ascends.mem_place_iff (h : Ascends placed) (x : Int64 × Field) :
    x ∈ Composite.place start f placed ↔
      x ∈ placed ∨ x = (start, f) ∧ ∀ y ∈ placed, y.1 ≠ start := by
  induction placed with
  | nil => simp [Composite.place]
  | cons y rest ih =>
    obtain ⟨hfirst, hrest⟩ := List.pairwise_cons.mp h
    unfold Composite.place
    split
    next hlt =>
      have hfree : ∀ z ∈ y :: rest, z.1 ≠ start := by
        intro z hz
        rcases List.mem_cons.mp hz with rfl | hz
        · exact (Int64.ne_of_lt hlt).symm
        · exact (Int64.ne_of_lt (Int64.lt_trans hlt (hfirst z hz))).symm
      rw [List.mem_cons, or_comm, and_iff_left hfree]
    next =>
      split
      next heq =>
        refine ⟨.inl, Or.rec id fun ⟨_, hfree⟩ => ?_⟩
        exact absurd heq.symm (hfree y List.mem_cons_self)
      next hne =>
        rw [List.mem_cons, ih hrest, List.mem_cons, or_assoc, List.forall_mem_cons,
          and_iff_right (Ne.symm hne)]

/-- The fields by offset, as far as they have one. -/
def placeAll (fields : List Field) : List (Int64 × Field) :=
  fields.foldl
    (fun placed f =>
      match f.offset with
      | some start => place start f placed
      | none => placed)
    []

theorem layout_eq (c : Composite) : c.layout = placeAll c.fields := rfl

theorem placeAll_concat (fields : List Field) (f : Field) :
    placeAll (fields ++ [f]) =
      f.offset.elim (placeAll fields) fun start => place start f (placeAll fields) := by
  rw [placeAll, List.foldl_append, List.foldl_cons, List.foldl_nil]
  cases f.offset <;> rfl

theorem firstAt?_concat (fields : List Field) (f : Field) (start : Int64) :
    firstAt? (fields ++ [f]) start =
      (firstAt? fields start).or (if f.offset = some start then some f else none) := by
  simp [firstAt?, List.find?_append, List.find?_singleton]

/-- Fields are placed in ascending order, and at each offset the one that is declared first. -/
theorem placeAll_spec (fields : List Field) :
    Ascends (placeAll fields) ∧
      ∀ start f, (start, f) ∈ placeAll fields ↔ firstAt? fields start = some f := by
  -- the field that is declared last is placed last, where no earlier one starts
  induction fields using List.reverseRecOn with
  | nil => exact ⟨.nil, by simp [placeAll, firstAt?]⟩
  | append_singleton fields f' ih =>
    obtain ⟨hascends, hmem⟩ := ih
    rw [placeAll_concat]
    cases hoffset : f'.offset with
    | none => exact ⟨hascends, by simpa [firstAt?_concat, hoffset] using hmem⟩
    | some start' =>
      have hfree : (∀ y ∈ placeAll fields, y.1 ≠ start') ↔ firstAt? fields start' = none := by
        rw [Option.eq_none_iff_forall_ne_some]
        refine ⟨fun h f hf => h _ ((hmem start' f).mpr hf) rfl, fun h y hy heq => ?_⟩
        exact h y.2 (heq ▸ (hmem y.1 y.2).mp hy)
      refine ⟨hascends.place start' f', fun start f => ?_⟩
      rw [Option.elim_some, hascends.mem_place_iff, hmem, hfree, firstAt?_concat, hoffset,
        Option.or_eq_some_iff]
      by_cases heq : start' = start
      · subst heq
        simp [and_comm, eq_comm]
      · simp [heq, Ne.symm heq]

/-! ### The last start up to an offset -/

/-- Starts up to an offset come first. -/
theorem Ascends.takeWhile_eq_filter (h : Ascends placed) :
    (placed.takeWhile fun x => decide (x.1 ≤ offset)) =
      placed.filter fun x => decide (x.1 ≤ offset) := by
  induction placed with
  | nil => rfl
  | cons x rest ih =>
    obtain ⟨hfirst, hrest⟩ := List.pairwise_cons.mp h
    by_cases hle : x.1 ≤ offset
    · simp [hle, ih hrest]
    · have hnone : rest.filter (fun y => decide (y.1 ≤ offset)) = [] := by
        refine List.filter_eq_nil_iff.mpr fun y hy hle' => hle ?_
        exact Int64.le_trans (Int64.le_of_lt (hfirst y hy)) (of_decide_eq_true hle')
      simp [hle, hnone]

/-- The last one has the greatest start. -/
theorem Ascends.getLast?_eq_some_iff (h : Ascends placed) (x : Int64 × Field) :
    placed.getLast? = some x ↔ x ∈ placed ∧ ∀ y ∈ placed, y.1 ≤ x.1 := by
  constructor
  · intro hlast
    obtain ⟨before, rfl⟩ := List.getLast?_eq_some_iff.mp hlast
    refine ⟨by simp, fun y hy => ?_⟩
    rcases List.mem_append.mp hy with hy | hy
    · exact Int64.le_of_lt ((List.pairwise_append.mp h).2.2 y hy x (by simp))
    · rw [List.mem_singleton.mp hy]
      exact Int64.le_refl _
  · rintro ⟨hx, hgreatest⟩
    cases hlast : placed.getLast? with
    | none =>
      rw [List.getLast?_eq_none_iff.mp hlast] at hx
      cases hx
    | some z =>
      obtain ⟨before, rfl⟩ := List.getLast?_eq_some_iff.mp hlast
      rcases List.mem_append.mp hx with hx | hx
      · have hlt := (List.pairwise_append.mp h).2.2 x hx z (by simp)
        exact absurd hlt (Int64.not_lt.mpr (hgreatest z (by simp)))
      · rw [List.mem_singleton.mp hx]

/-- The starts of fields up to an offset. -/
def startsUpTo (c : Composite) (offset : Int64) : Set Int64 :=
  {start | start ≤ offset ∧ ∃ f ∈ c.fields, f.offset = some start}

/-- A field starts at an offset exactly if one of them is the first that does. -/
theorem exists_firstAt?_iff {fields : List Field} :
    (∃ f, firstAt? fields start = some f) ↔ ∃ f ∈ fields, f.offset = some start := by
  rw [← Option.isSome_iff_exists, firstAt?, List.find?_isSome]
  simp

/-- The fields that start at or before an offset, ascending. -/
theorem upTo_eq_filter (c : Composite) (offset : Int64) :
    (c.layout.takeWhile fun (start, _) => decide (start ≤ offset)) =
      c.layout.filter fun x => decide (x.1 ≤ offset) :=
  (placeAll_spec c.fields).1.takeWhile_eq_filter

theorem mem_upTo_iff :
    (start, f) ∈ c.layout.filter (fun x => decide (x.1 ≤ offset)) ↔
      start ≤ offset ∧ firstAt? c.fields start = some f := by
  rw [List.mem_filter, decide_eq_true_iff, and_comm, layout_eq, (placeAll_spec c.fields).2]

/-- The last of them is the first declared one at the last start. -/
theorem getLast?_upTo :
    (c.layout.filter fun x => decide (x.1 ≤ offset)).getLast? = some (start, f) ↔
      IsGreatest (c.startsUpTo offset) start ∧ firstAt? c.fields start = some f := by
  have hascends : Ascends (c.layout.filter fun x => decide (x.1 ≤ offset)) :=
    (placeAll_spec c.fields).1.filter _
  rw [hascends.getLast?_eq_some_iff, mem_upTo_iff]
  constructor
  · rintro ⟨⟨hle, hfirst⟩, hgreatest⟩
    refine ⟨⟨⟨hle, exists_firstAt?_iff.mp ⟨f, hfirst⟩⟩, ?_⟩, hfirst⟩
    rintro start' ⟨hle', hstart'⟩
    obtain ⟨f', hf'⟩ := exists_firstAt?_iff.mpr hstart'
    exact hgreatest (start', f') (mem_upTo_iff.mpr ⟨hle', hf'⟩)
  · rintro ⟨⟨⟨hle, -⟩, hgreatest⟩, hfirst⟩
    refine ⟨⟨hle, hfirst⟩, fun ⟨start', f'⟩ hmem => ?_⟩
    obtain ⟨hle', hf'⟩ := mem_upTo_iff.mp hmem
    exact hgreatest ⟨hle', exists_firstAt?_iff.mp ⟨f', hf'⟩⟩

/-! ### Finding a field -/

/-- What an offset falls into: the first declared field of those that start last at or before it. -/
theorem fieldAt?_eq_some_iff :
    c.fieldAt? offset = some (f, rest) ↔ 0 ≤ offset ∧ c.isComplete ∧
      ∃ start, IsGreatest (c.startsUpTo offset) start ∧ firstAt? c.fields start = some f ∧
        rest = offset - start := by
  rw [fieldAt?, upTo_eq_filter]
  split
  next h =>
    refine ⟨nofun, fun ⟨hle, hcomplete, _⟩ => ?_⟩
    exact absurd h (not_or.mpr ⟨Int64.not_lt.mpr hle, not_not_intro hcomplete⟩)
  next h =>
    obtain ⟨hle, hcomplete⟩ := not_or.mp h
    rw [and_iff_right (Int64.not_lt.mp hle), and_iff_right (not_not.mp hcomplete),
      Option.map_eq_some_iff]
    constructor
    · rintro ⟨⟨start, f'⟩, hlast, heq⟩
      obtain ⟨rfl, rfl⟩ := Prod.mk.inj heq
      obtain ⟨hgreatest, hfirst⟩ := getLast?_upTo.mp hlast
      exact ⟨start, hgreatest, hfirst, rfl⟩
    · rintro ⟨start, hgreatest, hfirst, rfl⟩
      exact ⟨(start, f), getLast?_upTo.mpr ⟨hgreatest, hfirst⟩, rfl⟩

/-- What falls into no field: every offset if the layout is incomplete, and what is before all
fields. -/
theorem fieldAt?_eq_none_iff :
    c.fieldAt? offset = none ↔ (∃ f ∈ c.fields, f.offset = none) ∨ offset < 0 ∨
      ∀ f ∈ c.fields, ∀ start, f.offset = some start → offset < start := by
  have hcomplete : ¬ c.isComplete ↔ ∃ f ∈ c.fields, f.offset = none := by
    simp [isComplete]
  have hbefore : c.layout.filter (fun x => decide (x.1 ≤ offset)) = [] ↔
      ∀ f ∈ c.fields, ∀ start, f.offset = some start → offset < start := by
    rw [List.eq_nil_iff_forall_not_mem]
    constructor
    · intro h f hf start hstart
      obtain ⟨first, hfirst⟩ := exists_firstAt?_iff.mpr ⟨f, hf, hstart⟩
      exact Int64.not_le.mp fun hle => h (start, first) (mem_upTo_iff.mpr ⟨hle, hfirst⟩)
    · rintro h ⟨start, first⟩ hmem
      obtain ⟨hle, hfirst⟩ := mem_upTo_iff.mp hmem
      obtain ⟨f, hf, hstart⟩ := exists_firstAt?_iff.mp ⟨first, hfirst⟩
      exact absurd (h f hf start hstart) (Int64.not_lt.mpr hle)
  rw [fieldAt?, upTo_eq_filter, ← hcomplete, ← hbefore]
  split
  next h => exact ⟨fun _ => h.elim (fun h => .inr (.inl h)) .inl, fun _ => rfl⟩
  next h =>
    obtain ⟨hle, hcomplete⟩ := not_or.mp h
    rw [Option.map_eq_none_iff, List.getLast?_eq_none_iff, or_iff_right hcomplete,
      or_iff_right hle]

/-- **Fields are found as by a scan.** Nothing is found if some field has no offset, if the offset
is negative, or if every field starts after it, and only then. What is found otherwise is, of the
fields that start last at or before the offset, the one that is declared first, and how far the
offset is from its start. -/
theorem fieldAt?_eq_scan (hforward : ∀ f ∈ c.fields, ∀ start, f.offset = some start → 0 ≤ start)
    (offset : Int64) :
    (c.fieldAt? offset = none ↔ (∃ f ∈ c.fields, f.offset = none) ∨ offset < 0 ∨
        ∀ f ∈ c.fields, ∀ start, f.offset = some start → offset < start) ∧
      ∀ f rest, c.fieldAt? offset = some (f, rest) ↔ 0 ≤ offset ∧ c.isComplete ∧
        ∃ start, IsGreatest (c.startsUpTo offset) start ∧ firstAt? c.fields start = some f ∧
          0 ≤ rest ∧ rest.toInt = offset.toInt - start.toInt := by
  refine ⟨fieldAt?_eq_none_iff, fun f rest => ?_⟩
  rw [fieldAt?_eq_some_iff]
  refine and_congr_right fun _ => and_congr_right fun _ => exists_congr fun start =>
    and_congr_right fun hgreatest => and_congr_right fun _ => ?_
  obtain ⟨⟨hle, f', hf', hstart⟩, -⟩ := hgreatest
  have hdistance := Int64.toInt_sub_of_le offset start (hforward f' hf' start hstart) hle
  have hle' := Int64.le_iff_toInt_le.mp hle
  constructor
  · rintro rfl
    rw [Int64.le_iff_toInt_le, hdistance, Int64.toInt_zero]
    exact ⟨by omega, rfl⟩
  · rintro ⟨-, hrest⟩
    exact Int64.toInt_inj.mp (hrest.trans hdistance.symm)

/-- Fields out of order, two of them at the same offset: six bytes in, one is two bytes into the one
of these that is declared first. -/
theorem fieldAt?_eq_scan_of_shared_offset :
    let late : Field := ⟨"late", .int .int, some 8⟩
    let first : Field := ⟨"first", .int .int, some 4⟩
    let second : Field := ⟨"second", .int .short, some 4⟩
    let early : Field := ⟨"early", .int .int, some 0⟩
    let c : Composite := ⟨"mixed", 1, false, [late, first, second, early]⟩
    (∀ f ∈ c.fields, ∀ start, f.offset = some start → 0 ≤ start) ∧
      c.fieldAt? 6 = some (first, 2) ∧ IsGreatest (c.startsUpTo 6) 4 ∧
        firstAt? c.fields 4 = some first := by
  intro late first second early c
  have hforward : ∀ f ∈ c.fields, ∀ start, f.offset = some start → 0 ≤ start := by
    simp [c, late, first, second, early]
  have hgreatest : IsGreatest (c.startsUpTo 6) 4 := by
    refine ⟨⟨by decide, first, by simp [c], rfl⟩, ?_⟩
    rintro start ⟨hle, f, hf, hstart⟩
    simp only [c, List.mem_cons, List.not_mem_nil, or_false] at hf
    rcases hf with rfl | rfl | rfl | rfl <;> obtain rfl := Option.some.inj hstart
    · exact absurd hle (by decide)
    all_goals decide
  have hfirst : firstAt? c.fields 4 = some first := rfl
  exact ⟨hforward, ((fieldAt?_eq_scan hforward 6).2 first 2).mpr
    ⟨by decide, rfl, 4, hgreatest, hfirst, by decide, by decide⟩, hgreatest, hfirst⟩

end FactLift.C.Composite
