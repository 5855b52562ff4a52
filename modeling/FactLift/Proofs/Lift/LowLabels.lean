import FactLift.Proofs.Lift.Function

/-! Labels and the low-level body.

A branch puts a goto into both bodies, to the same label, but only the high-level statement at the
address that it leads to gets the label. So every goto of a low-level body is left without the
statement that it names, also where the function has an instruction there
(`liftFunction_low_unlabelled`). -/

namespace FactLift

open C

variable {cfg : Config} {p : ProgramFacts} {f : FunctionFacts} {w w' : Workspace}
  {lifted : LiftedFunction}

section Bodies

variable {pieces : List Piece} (hfits : Fitting pieces)
include hfits

/-- No statement of the low-level body has a label, at any depth. -/
theorem labels_of_mem_low {t : Stmt} (ht : t ∈ (assemble pieces).low.statements) :
    t.labels = [] := by
  rcases List.mem_cons.mp ht with rfl | ht
  · rfl
  · rw [StmtBody.statements, statementsOf_eq_flatMap, List.flatMap_map] at ht
    obtain ⟨s, hs, ht⟩ := List.mem_flatMap.mp ht
    exact List.flatMap_eq_nil_iff.mp (List.flatMap_eq_nil_iff.mp (labels_low hfits) s hs) t ht

theorem plainLabels_assemble_low : (assemble pieces).low.plainLabels = [] := by
  refine List.flatMap_eq_nil_iff.mpr fun t ht => ?_
  rw [labels_of_mem_low hfits ht]
  rfl

/-- The gotos of one body are those of the other. -/
theorem gotos_assemble_low : (assemble pieces).low.gotos = (assemble pieces).high.gotos := by
  rw [assemble, gotos_block, gotos_block, List.flatMap_map, List.flatMap_map, gotos_low hfits,
    gotos_high hfits]

end Bodies

/-- The high-level statement at an address that a branch leads to has its label. -/
theorem LiftRun.mem_plainLabels {cx : DecodeContext} {targets : List UInt64}
    {is : List InstructionFacts} {ls : List Lifted} {s s' : Session}
    (hrun : LiftRun cfg cx s is ls s') {i : InstructionFacts} (hi : i ∈ is)
    (htarget : i.address ∈ targets) :
    addressLabel i.address ∈ (assemble (piecesOf targets is ls)).high.plainLabels := by
  rw [assemble, plainLabels_block, List.flatMap_map, plainLabels_high hrun.fitting,
    map_label_piecesOf hrun.fits.length_eq.symm, plainLabels_instructions]
  exact List.mem_map.mpr ⟨i, List.mem_filter.mpr ⟨hi, by simpa using htarget⟩, rfl⟩

/-- The labels that a low-level body lacks. None of its statements has a label, though its gotos are
those of the high-level body, one for one. Each leads to an address that some instruction branches
to, and if an instruction is there the label is in the high-level body, but never in this one. -/
structure LiftedFunction.LowUnlabelled (lifted : LiftedFunction) (f : FunctionFacts) : Prop where
  labels : ∀ t ∈ lifted.body.low.statements, t.labels = []
  gotos : lifted.body.low.gotos = lifted.body.high.gotos
  dangling : ∀ label ∈ lifted.body.low.gotos, ∃ a ∈ f.branchTargets, label = addressLabel a ∧
    label ∉ lifted.body.low.plainLabels ∧
    ((∃ i ∈ f.instructions, i.address = a) → label ∈ lifted.body.high.plainLabels)

/-- **The gotos of the low-level body.** They all dangle, in every function that lifts. -/
theorem liftFunction_low_unlabelled (h : liftFunction cfg p f w = (.ok lifted, w')) :
    lifted.LowUnlabelled f := by
  obtain ⟨ls, s, hrun, hbody, -⟩ := liftFunction_records h
  have hfits : Fitting (piecesOf f.branchTargets f.instructions ls) := hrun.fitting
  refine ⟨?_, ?_, fun label hlabel => ?_⟩
  · rw [hbody]
    exact fun t ht => labels_of_mem_low hfits ht
  · rw [hbody]
    exact gotos_assemble_low hfits
  · rw [hbody, gotos_assemble_low hfits, assemble, gotos_block, List.flatMap_map] at hlabel
    obtain ⟨i, hi, a, ha, rfl⟩ := hrun.target_of_goto hlabel
    have htarget : a ∈ f.branchTargets := List.mem_filterMap.mpr ⟨i, hi, ha⟩
    refine ⟨a, htarget, rfl, ?_, ?_⟩
    · rw [hbody, plainLabels_assemble_low hfits]
      exact List.not_mem_nil
    · rintro ⟨j, hj, rfl⟩
      rw [hbody]
      exact hrun.mem_plainLabels hj htarget

/-- The branch back to the second instruction of the loop. -/
theorem liftFunction_low_unlabelled_of_loop :
    ∃ lifted w', liftFunction {} loopProgram loop {} = (.ok lifted, w') ∧
      lifted.LowUnlabelled loop := by
  obtain ⟨lifted, w', h⟩ := loop_lifts
  exact ⟨lifted, w', h, liftFunction_low_unlabelled h⟩

/-- The low-level body of the loop goes to its second instruction, without a label there. -/
theorem loop_low_goto_dangles :
    ∃ lifted w', liftFunction {} loopProgram loop {} = (.ok lifted, w') ∧
      (∃ i ∈ loop.instructions, i.address = 0x1004) ∧
      addressLabel 0x1004 ∈ lifted.body.low.gotos ∧
      addressLabel 0x1004 ∉ lifted.body.low.plainLabels := by
  have hgotos : (liftFunction {} loopProgram loop {}).1.toOption.map (·.body.low.gotos) =
      some [addressLabel 0x1004] := by decide +kernel
  have hlabels : (liftFunction {} loopProgram loop {}).1.toOption.map (·.body.low.plainLabels) =
      some [] := by decide +kernel
  obtain ⟨lifted, w', h⟩ := loop_lifts
  rw [h] at hgotos hlabels
  have hgotos : lifted.body.low.gotos = [addressLabel 0x1004] := Option.some.inj hgotos
  have hlabels : lifted.body.low.plainLabels = [] := Option.some.inj hlabels
  exact ⟨lifted, w', h, ⟨_, List.mem_cons_of_mem _ (List.mem_cons_self ..), rfl⟩, by simp [hgotos],
    by simp [hlabels]⟩

end FactLift
