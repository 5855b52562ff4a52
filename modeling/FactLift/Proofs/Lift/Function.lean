import FactLift.Proofs.Lift.Body
import FactLift.Proofs.Text.Hex

/-! Lifted functions.

The two bodies of a function have the same shape and one item for each of its instructions
(`liftFunction_bodies_aligned`). Branch targets are labelled where they are, and a goto leads to a
label unless nothing is at its address (`liftFunction_labels_placed`). The provenance links the
instructions of the bodies one to one and knows where each comes from
(`liftFunction_provenance_exact`). -/

namespace FactLift

open C

variable {cfg : Config} {cx : DecodeContext} {p : ProgramFacts} {f : FunctionFacts}
  {w w' : Workspace} {lifted : LiftedFunction}

/-! ### The pieces of a run -/

section Pieces

variable {targets : List UInt64} {is : List InstructionFacts} {ls : List Lifted} {s s' : Session}

theorem mem_piecesOf {piece : Piece} (h : piece ∈ piecesOf targets is ls) :
    ∃ i, (i, piece.lifted) ∈ is.zip ls ∧ piece.label = i.label? targets := by
  obtain ⟨⟨i, l⟩, hmem, rfl⟩ := List.mem_map.mp h
  exact ⟨i, hmem, rfl⟩

theorem LiftRun.fitting (h : LiftRun cfg cx s is ls s') : Fitting (piecesOf targets is ls) := by
  intro piece hpiece
  obtain ⟨i, hmem, -⟩ := mem_piecesOf hpiece
  exact ⟨i.operation, List.forall₂_zip h.fits hmem⟩

theorem mem_tracedOf {i : InstructionFacts} {l : Forms Instr} (h : (i, .instr l) ∈ is.zip ls) :
    ⟨i.address, i.size, l⟩ ∈ tracedOf is ls :=
  List.mem_flatMap.mpr ⟨_, h, List.mem_singleton_self _⟩

theorem filterMap_instr?_piecesOf :
    (piecesOf targets is ls).filterMap (·.lifted.instr?) = (tracedOf is ls).map (·.forms) := by
  rw [piecesOf, List.filterMap_map, tracedOf, List.map_flatMap, List.filterMap_eq_flatMap_toList]
  refine List.flatMap_congr fun x _ => ?_
  obtain ⟨i, l⟩ := x
  cases l <;> rfl

theorem map_lifted_piecesOf (h : ls.length = is.length) :
    (piecesOf targets is ls).map (·.lifted) = ls := by
  rw [piecesOf, List.map_map]
  exact List.map_snd_zip (by omega)

theorem map_label_piecesOf (h : ls.length = is.length) :
    (piecesOf targets is ls).map (·.label) = is.map (·.label? targets) := by
  have hfirst : (is.zip ls).map (·.1) = is := List.map_fst_zip (by omega)
  rw [piecesOf, List.map_map]
  conv_rhs => rw [← hfirst, List.map_map]
  rfl

/-- The plain labels of instructions are those at the addresses that a branch leads to. -/
theorem plainLabels_instructions (targets : List UInt64) (is : List InstructionFacts) :
    (is.map (·.label? targets)).filterMap (·.bind Label.name?) =
      (is.filter fun i => targets.contains i.address).map fun i => addressLabel i.address := by
  induction is with
  | nil => rfl
  | cons i rest ih =>
    rw [List.map_cons, List.filterMap_cons, ih]
    by_cases h : i.address ∈ targets
    · simp [InstructionFacts.label?, Label.name?, h]
    · simp [InstructionFacts.label?, h]

theorem count_plainLabels (targets : List UInt64) (is : List InstructionFacts) (a : UInt64) :
    ((is.map (·.label? targets)).filterMap (·.bind Label.name?)).count (addressLabel a) =
      if a ∈ targets then is.countP (·.address = a) else 0 := by
  rw [plainLabels_instructions, List.count_eq_countP, List.countP_map, List.countP_filter]
  by_cases ha : a ∈ targets
  · rw [if_pos ha]
    refine List.countP_congr fun i _ => ?_
    suffices i.address = a → i.address ∈ targets by simpa
    rintro rfl
    exact ha
  · rw [if_neg ha, List.countP_eq_zero]
    intro i _
    suffices i.address = a → i.address ∉ targets by simpa
    rintro rfl
    exact ha

end Pieces

/-! ### What a function that lifts went through -/

theorem Provenance.sameInstrs_resolve (p : Provenance) : p.SameInstrs p.resolve.1 :=
  ⟨rfl, rfl, rfl, rfl, rfl⟩

/-- The provenance of a lifted function holds exactly the instructions of its run. -/
theorem liftFunction_records (h : liftFunction cfg p f w = (.ok lifted, w')) :
    ∃ ls s, LiftRun cfg (p.context f) (f.entry w) f.instructions ls s ∧
      lifted.body = assemble (piecesOf f.branchTargets f.instructions ls) ∧
      lifted.provenance.Records (tracedOf f.instructions ls) s.nextInstr ∧
      ∀ d ∈ lifted.diagnostics, d.kind ≠ .provenanceOverwrite := by
  obtain ⟨ls, s, hrun, hbody, hprovenance, hdiagnostics⟩ := liftFunction_run h
  have htracks : s.Tracks (tracedOf f.instructions ls) := hrun.tracks (f.entry_tracks w)
  refine ⟨ls, s, hrun, hbody, ?_, fun d hd => ?_⟩
  · rw [hprovenance]
    exact htracks.records.congr s.provenance.sameInstrs_resolve
  · rw [hdiagnostics] at hd
    rcases List.mem_append.mp hd with hd | hd
    · exact htracks.clean d hd
    · rw [Provenance.kind_of_mem_resolve hd]
      decide

/-! ### A loop -/

/-- An instruction of four bytes whose fact record is empty. -/
def bareInstruction (address : UInt64) (o : Opcode) (content : Content)
    (accepted : o.accepts content = true) : InstructionFacts where
  address := address
  size := 4
  operation := ⟨o, ⟨1, content⟩, accepted⟩
  record := ⟨1, ["a:"], []⟩

/-- Two instructions that do nothing, a branch back to the second, and a return. -/
def loop : FunctionFacts where
  name := "loop"
  address := 0x1000
  formals := []
  dictionary := {}
  flows := none
  instructions :=
    [bareInstruction 0x1000 .nop ⟨["nop"], []⟩ rfl,
      bareInstruction 0x1004 .nop ⟨["nop"], []⟩ rfl,
      bareInstruction 0x1008 .branch ⟨["branch", "a"], [0x1004]⟩ rfl,
      bareInstruction 0x100c .ret ⟨["return"], []⟩ rfl]

/-- A program with nothing but a loop. -/
def loopProgram : ProgramFacts where
  name := "loop"
  globals := {}
  strings := []
  types := []
  functions := [loop]
  rejected := []

theorem loop_lifts : ∃ lifted w', liftFunction {} loopProgram loop {} = (.ok lifted, w') := by
  have h : (liftFunction {} loopProgram loop {}).1.toBool = true := by decide
  rcases hrun : liftFunction {} loopProgram loop {} with ⟨_ | lifted, w'⟩
  · rw [hrun] at h
    cases h
  · exact ⟨lifted, w', rfl⟩

/-! ### Aligned bodies -/

/-- A low-level and a high-level statement that stand for each other: sequences whose instructions
are mapped one to one, returns, branches to the same address, or gotos to the same label. -/
inductive Aligned (p : Provenance) : Stmt → Stmt → Prop
  | instrs (labels labels' : List Label) {lows highs : List Instr} (hne : lows ≠ [])
      (hmapped : List.Forall₂ (fun l h => p.instrs.high? l.id = some h.id) lows highs) :
      Aligned p ⟨labels, .instrs lows⟩ ⟨labels', .instrs highs⟩
  | return (labels labels' : List Label) (value value' : Option (Tracked Expr)) :
      Aligned p ⟨labels, .return value⟩ ⟨labels', .return value'⟩
  | branch (labels labels' : List Label) (cond cond' : Tracked Expr) (t t' e e' : Stmt)
      (target : UInt64) :
      Aligned p ⟨labels, .branch cond t e (some target)⟩ ⟨labels', .branch cond' t' e' (some target)⟩
  | goto (labels labels' : List Label) (label : String) :
      Aligned p ⟨labels, .goto label⟩ ⟨labels', .goto label⟩

/-- The two forms of a statement are aligned if the instructions in it are mapped. -/
theorem Joins.aligned {group : List Piece} {s : Forms Stmt} {p : Provenance} (h : Joins group s)
    (hfits : Fitting group)
    (hmapped : ∀ label i, ⟨label, .instr i⟩ ∈ group → p.instrs.high? i.low.id = some i.high.id) :
    Aligned p s.low s.high := by
  cases h with
  | run label i run =>
    refine .instrs _ _ (by simp) ?_
    rw [List.forall₂_map_left_iff, List.forall₂_map_right_iff, List.forall₂_same]
    intro j hj
    rcases List.mem_cons.mp hj with rfl | hj
    · exact hmapped label j (by simp [runPieces])
    · exact hmapped none j (by simp [runPieces, hj])
  | stmt label s =>
    obtain ⟨o, ho⟩ := hfits ⟨label, .stmt s⟩ (List.mem_singleton_self _)
    cases ho with
    | «return» value => cases label <;> exact .return _ _ _ _
    | jump htarget => cases label <;> exact .goto _ _ _
    | jumpIf htarget cond => cases label <;> exact .branch _ _ _ _ _ _ _ _ _

/-- Two blocks that are aligned statement by statement, with one item for everything that
instructions lifted to, in order. -/
structure LiftedFunction.Mirrors (lifted : LiftedFunction) (ls : List Lifted)
    (lows highs : List Stmt) : Prop where
  low_block : lifted.body.low = .ofBody (.block lows)
  high_block : lifted.body.high = .ofBody (.block highs)
  aligned : List.Forall₂ (Aligned lifted.provenance) lows highs
  low_items : lows.flatMap Stmt.items = ls.map Lifted.low
  high_items : highs.flatMap Stmt.items = ls.map Lifted.high

/-- **The bodies.** The two bodies of a function that lifts mirror each other, and have one item for
every instruction. -/
theorem liftFunction_bodies_aligned (h : liftFunction cfg p f w = (.ok lifted, w')) :
    ∃ ls s lows highs, LiftRun cfg (p.context f) (f.entry w) f.instructions ls s ∧
      ls.length = f.instructions.length ∧ lifted.Mirrors ls lows highs := by
  obtain ⟨ls, s, hrun, hbody, hrecords, -⟩ := liftFunction_records h
  have hlength : ls.length = f.instructions.length := hrun.fits.length_eq.symm
  have hfits : Fitting (piecesOf f.branchTargets f.instructions ls) := hrun.fitting
  refine ⟨ls, s, _, _, hrun, hlength, ⟨by rw [hbody]; rfl, by rw [hbody]; rfl, ?_, ?_, ?_⟩⟩
  · rw [List.forall₂_map_left_iff, List.forall₂_map_right_iff, List.forall₂_same]
    intro stmt hstmt
    obtain ⟨group, hsub, hjoins⟩ := (assemble_madeOf _).joins hstmt
    refine hjoins.aligned (fun piece hpiece => hfits piece (hsub piece hpiece)) ?_
    intro label i hi
    obtain ⟨facts, hmem, -⟩ := mem_piecesOf (hsub _ hi)
    exact (hrecords.recorded _ (mem_tracedOf hmem)).high
  · rw [List.flatMap_map, items_low hfits, map_lifted_piecesOf hlength]
  · rw [List.flatMap_map, items_high hfits, map_lifted_piecesOf hlength]

theorem liftFunction_bodies_aligned_of_loop :
    ∃ lifted w', liftFunction {} loopProgram loop {} = (.ok lifted, w') ∧
      ∃ ls s lows highs, LiftRun {} (loopProgram.context loop) (loop.entry {}) loop.instructions ls s ∧
        ls.length = 4 ∧ lifted.Mirrors ls lows highs := by
  obtain ⟨lifted, w', h⟩ := loop_lifts
  exact ⟨lifted, w', h, liftFunction_bodies_aligned h⟩

/-! ### Labels -/

/-- A statement that an operation lifts to has no labels, also not within it, and is one item. -/
theorem Lifted.Fits.unlabelled {o : Operation} {s : Forms Stmt} (h : (Lifted.stmt s).Fits o) :
    s.high.labels = [] ∧ (∀ t ∈ s.high.body.statements, t.labels = []) ∧
      ∀ labels, Stmt.items ⟨labels, s.high.body⟩ = [.stmt s.high.body] := by
  cases h with
  | «return» value => exact ⟨rfl, nofun, fun _ => rfl⟩
  | jump => exact ⟨rfl, nofun, fun _ => rfl⟩
  | jumpIf =>
    refine ⟨rfl, fun t ht => ?_, fun _ => rfl⟩
    rcases List.mem_cons.mp ht with rfl | ht
    · rfl
    · rw [List.mem_singleton.mp ht]

theorem Forms.underLabel_high {s : Forms Stmt} (h : s.high.labels = []) (label : Option Label) :
    (s.underLabel label).high = ⟨label.toList, s.high.body⟩ := by
  obtain ⟨low, ⟨labels, body⟩⟩ := s
  obtain rfl : labels = [] := h
  cases label <;> rfl

/-- A label in the statement that pieces make up stands in front of the item of the first piece. -/
theorem Joins.labels {group : List Piece} {s : Forms Stmt} (h : Joins group s)
    (hfits : Fitting group) {t : Stmt} (ht : t ∈ s.high.statements) {l : Label} (hl : l ∈ t.labels) :
    ∃ piece ∈ group, piece.label = some l ∧ t.items.head? = some piece.lifted.high := by
  cases h with
  | run label i run =>
    obtain rfl : t = (runStmt label (i :: run)).high := by
      simpa [runStmt, Stmt.statements, StmtBody.statements] using ht
    have hlabel : label = some l := by simpa [runStmt] using hl
    exact ⟨⟨label, .instr i⟩, by simp [runPieces], hlabel, rfl⟩
  | stmt label s =>
    refine ⟨⟨label, .stmt s⟩, List.mem_singleton_self _, ?_⟩
    obtain ⟨o, ho⟩ := hfits ⟨label, .stmt s⟩ (List.mem_singleton_self _)
    obtain ⟨hlabels, hwithin, hitems⟩ := ho.unlabelled
    rw [Forms.underLabel_high hlabels, Stmt.statements] at ht
    rcases List.mem_cons.mp ht with rfl | ht
    · exact ⟨Option.mem_toList.mp hl, by rw [hitems]; rfl⟩
    · rw [hwithin t ht] at hl
      cases hl

theorem InstructionFacts.address_of_label? (i : InstructionFacts) {targets : List UInt64}
    {a : UInt64} (h : i.label? targets = some (.plain (addressLabel a))) : i.address = a := by
  unfold label? at h
  split at h
  · exact addressLabel_inj (Label.plain.inj (Option.some.inj h))
  · cases h

/-- Gotos lead to the address that their operation branches to. -/
theorem Lifted.Fits.gotos {o : Operation} {l : Lifted} (h : l.Fits o) {label : String}
    (hlabel : label ∈ l.gotos) : ∃ a, o.branchTarget? = some a ∧ label = addressLabel a := by
  cases h with
  | instr => cases hlabel
  | «return» => cases hlabel
  | jump htarget => exact ⟨_, htarget, List.mem_singleton.mp hlabel⟩
  | jumpIf htarget => exact ⟨_, htarget, List.mem_singleton.mp hlabel⟩

section Placed

variable {targets : List UInt64} {is : List InstructionFacts} {ls : List Lifted} {s s' : Session}
  (hrun : LiftRun cfg cx s is ls s')
include hrun

/-- A label anywhere in the statements stands in front of the item of an instruction at its
address. -/
theorem LiftRun.first_of_label {t : Stmt} {a : UInt64}
    (ht : t ∈ (assembleAfter [] [] (piecesOf targets is ls)).flatMap (·.high.statements))
    (hl : .plain (addressLabel a) ∈ t.labels) :
    ∃ i l, (i, l) ∈ is.zip ls ∧ i.address = a ∧ t.items.head? = some l.high := by
  obtain ⟨stmt, hstmt, ht⟩ := List.mem_flatMap.mp ht
  obtain ⟨group, hsub, hjoins⟩ := (assemble_madeOf _).joins hstmt
  obtain ⟨piece, hpiece, hlabel, hfirst⟩ :=
    hjoins.labels (fun piece hpiece => hrun.fitting piece (hsub piece hpiece)) ht hl
  obtain ⟨i, hmem, hi⟩ := mem_piecesOf (hsub piece hpiece)
  exact ⟨i, piece.lifted, hmem, i.address_of_label? (hi ▸ hlabel), hfirst⟩

/-- A goto anywhere in the statements leads to an address that an instruction branches to. -/
theorem LiftRun.target_of_goto {label : String}
    (h : label ∈ (assembleAfter [] [] (piecesOf targets is ls)).flatMap (·.high.gotos)) :
    ∃ i ∈ is, ∃ a, i.operation.branchTarget? = some a ∧ label = addressLabel a := by
  rw [gotos_high hrun.fitting] at h
  obtain ⟨piece, hpiece, hlabel⟩ := List.mem_flatMap.mp h
  obtain ⟨i, hmem, -⟩ := mem_piecesOf hpiece
  exact ⟨i, (List.of_mem_zip hmem).1, (List.forall₂_zip hrun.fits hmem).gotos hlabel⟩

end Placed

/-- The labels of a high-level body. Each item has the label of its instruction, if branches lead
there; statements within statements have none. A goto leads to an address that some instruction
branches to, and its label is there if an instruction is. -/
structure LiftedFunction.LabelsPlaced (lifted : LiftedFunction) (f : FunctionFacts)
    (ls : List Lifted) (highs : List Stmt) : Prop where
  block : lifted.body.high = .ofBody (.block highs)
  items : highs.flatMap Stmt.labelledItems =
    (f.instructions.zip ls).map fun (i, l) => ((i.label? f.branchTargets).toList, l.high)
  count : ∀ a, lifted.body.high.plainLabels.count (addressLabel a) =
    if a ∈ f.branchTargets then f.instructions.countP (·.address = a) else 0
  first : ∀ t ∈ lifted.body.high.statements, ∀ a, .plain (addressLabel a) ∈ t.labels →
    ∃ i l, (i, l) ∈ f.instructions.zip ls ∧ i.address = a ∧ t.items.head? = some l.high
  gotos : ∀ label ∈ lifted.body.high.gotos, ∃ a ∈ f.branchTargets, label = addressLabel a ∧
    ((∃ i ∈ f.instructions, i.address = a) → label ∈ lifted.body.high.plainLabels)

/-- **The labels.** The labels of the high-level body of a function that lifts are placed, and tell
addresses apart. -/
theorem liftFunction_labels_placed (h : liftFunction cfg p f w = (.ok lifted, w')) :
    (∃ ls s highs, LiftRun cfg (p.context f) (f.entry w) f.instructions ls s ∧
      lifted.LabelsPlaced f ls highs) ∧
      ∀ a b, addressLabel a = addressLabel b → a = b := by
  obtain ⟨ls, s, hrun, hbody, -⟩ := liftFunction_records h
  have hlength : ls.length = f.instructions.length := hrun.fits.length_eq.symm
  have hfits : Fitting (piecesOf f.branchTargets f.instructions ls) := hrun.fitting
  have hhigh : lifted.body.high = .ofBody (.block
      ((assembleAfter [] [] (piecesOf f.branchTargets f.instructions ls)).map (·.high))) := by
    rw [hbody]
    rfl
  have hcount : ∀ a, lifted.body.high.plainLabels.count (addressLabel a) =
      if a ∈ f.branchTargets then f.instructions.countP (·.address = a) else 0 := by
    intro a
    rw [hhigh, plainLabels_block, List.flatMap_map, plainLabels_high hfits,
      map_label_piecesOf hlength, count_plainLabels]
  refine ⟨⟨ls, s, _, hrun, hhigh, ?_, hcount, ?_, ?_⟩, fun _ _ => addressLabel_inj⟩
  · rw [List.flatMap_map, labelledItems_high hfits, piecesOf, List.map_map]
    rfl
  · intro t ht a hl
    rw [hhigh] at ht
    rcases List.mem_cons.mp ht with rfl | ht
    · cases hl
    · rw [StmtBody.statements, statementsOf_eq_flatMap, List.flatMap_map] at ht
      exact hrun.first_of_label ht hl
  · intro label hlabel
    rw [hhigh, gotos_block, List.flatMap_map] at hlabel
    obtain ⟨i, hi, a, ha, rfl⟩ := hrun.target_of_goto hlabel
    have htarget : a ∈ f.branchTargets := List.mem_filterMap.mpr ⟨i, hi, ha⟩
    refine ⟨a, htarget, rfl, fun hat => ?_⟩
    rw [← List.count_pos_iff, hcount a, if_pos htarget]
    simpa [List.countP_pos_iff] using hat

/-- The head of the loop is labelled once, and the goto leads there. -/
theorem liftFunction_labels_placed_of_loop :
    ∃ lifted w', liftFunction {} loopProgram loop {} = (.ok lifted, w') ∧
      lifted.body.high.plainLabels.count (addressLabel 0x1004) = 1 ∧
      ∃ ls s highs, LiftRun {} (loopProgram.context loop) (loop.entry {}) loop.instructions ls s ∧
        lifted.LabelsPlaced loop ls highs := by
  obtain ⟨lifted, w', h⟩ := loop_lifts
  obtain ⟨⟨ls, s, highs, hrun, hplaced⟩, -⟩ := liftFunction_labels_placed h
  have hcount := hplaced.count 0x1004
  exact ⟨lifted, w', h, hcount.trans (by decide), ls, s, highs, hrun, hplaced⟩

/-! ### Provenance -/

/-- The instructions of the two bodies are these entries, and the provenance links the two forms of
each to each other and to nothing else, with the nodes, the address and the bytes of both. -/
structure LiftedFunction.Traces (lifted : LiftedFunction) (entries : List Traced) : Prop where
  lows : lifted.body.low.instructions = entries.map (·.forms.low)
  highs : lifted.body.high.instructions = entries.map (·.forms.high)
  linked : ∀ e ∈ entries, lifted.provenance.instrs.lows e.forms.high.id = [e.forms.low.id] ∧
    lifted.provenance.instrs.high? e.forms.low.id = some e.forms.high.id
  nodes : ∀ e ∈ entries, lifted.provenance.lowInstructions e.forms.high.id = [e.forms.low.tree] ∧
    lifted.provenance.highInstruction? e.forms.low.id = some e.forms.high.tree
  only : ∀ low high, lifted.provenance.instrs.high? low = some high → ∃ e ∈ entries, e.Links low high
  distinct : (entries.flatMap Traced.ids).Nodup
  places : ∀ e ∈ entries, ∀ id ∈ [e.forms.low.id, e.forms.high.id],
    lifted.provenance.instrAddresses[id]? = some [e.address] ∧
      lifted.provenance.spans[id]? = some ⟨e.address, e.size⟩
  instrsAt : ∀ a, lifted.provenance.instrsAt a =
    (entries.filter (·.address = a)).flatMap fun e => [e.forms.low.id, e.forms.high.id]

/-- **The provenance.** A function that lifts traces the instructions of its run that stayed
instructions, and no link was ever replaced. -/
theorem liftFunction_provenance_exact (h : liftFunction cfg p f w = (.ok lifted, w')) :
    ∃ ls s, LiftRun cfg (p.context f) (f.entry w) f.instructions ls s ∧
      lifted.Traces (tracedOf f.instructions ls) ∧
      ∀ d ∈ lifted.diagnostics, d.kind ≠ .provenanceOverwrite := by
  obtain ⟨ls, s, hrun, hbody, hrecords, hclean⟩ := liftFunction_records h
  have hfits : Fitting (piecesOf f.branchTargets f.instructions ls) := hrun.fitting
  have hrecorded := hrecords.recorded
  refine ⟨ls, s, hrun, ⟨?_, ?_, ?_, ?_, hrecords.mapped, hrecords.nodup, ?_, hrecords.instrsAt⟩,
    hclean⟩
  · rw [hbody, assemble, instructions_block, List.flatMap_map, instructions_low hfits,
      filterMap_instr?_piecesOf, List.map_map]
    rfl
  · rw [hbody, assemble, instructions_block, List.flatMap_map, instructions_high hfits,
      filterMap_instr?_piecesOf, List.map_map]
    rfl
  · exact fun e he => ⟨(hrecorded e he).lows, (hrecorded e he).high⟩
  · exact fun e he => ⟨(hrecorded e he).lowInstructions, (hrecorded e he).highInstruction?⟩
  · exact fun e he id hid => ⟨(hrecorded e he).addresses id hid, (hrecorded e he).spans id hid⟩

theorem liftFunction_provenance_exact_of_loop :
    ∃ lifted w', liftFunction {} loopProgram loop {} = (.ok lifted, w') ∧
      ∃ ls s, LiftRun {} (loopProgram.context loop) (loop.entry {}) loop.instructions ls s ∧
        lifted.Traces (tracedOf loop.instructions ls) ∧
        ∀ d ∈ lifted.diagnostics, d.kind ≠ .provenanceOverwrite := by
  obtain ⟨lifted, w', h⟩ := loop_lifts
  exact ⟨lifted, w', h, liftFunction_provenance_exact h⟩

end FactLift
