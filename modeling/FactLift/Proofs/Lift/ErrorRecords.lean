import FactLift.Proofs.Lift.Advances
import FactLift.Proofs.Lift.Function

/-! Records whose results are not all available.

The instruction of such a record becomes a `nop`, like one that is part of another instruction, and
nothing else is lifted for it: the symbols of the session are those from before
(`liftInstruction_dropped`). Only the record itself is reported. No other part of a lift reports
error values, so their reports tell the records apart (`liftFunction_neutralizes_errors`). -/

namespace FactLift

open C

/-! ### The reports -/

/-- The reports about records with error values. -/
def errorReports (ds : List Diagnostic) : List Diagnostic :=
  ds.filter (·.kind = .errorValuedRecord)

theorem errorReports_append (ds ds' : List Diagnostic) :
    errorReports (ds ++ ds') = errorReports ds ++ errorReports ds' :=
  List.filter_append ds ds'

theorem errorReports_of_other {ds : List Diagnostic} (h : ∀ d ∈ ds, d.kind ≠ .errorValuedRecord) :
    errorReports ds = [] := by
  rw [errorReports, List.filter_eq_nil_iff]
  simpa using h

/-- What a call on the provenance reports is a link that was replaced. -/
theorem Provenance.kind_of_record {p : Provenance} {call : Recording} {d : Diagnostic}
    (h : (p.record call).2 = some d) : d.kind = .provenanceOverwrite := by
  have hregister {m : NodeMapping} {kind : NodeKind} {low high : Nat} {site : Option UInt64}
      (h : (m.register kind low high site).2 = some d) : d.kind = .provenanceOverwrite := by
    have hkinds := m.register_report kind low high site
    rw [h] at hkinds
    split at hkinds
    · simpa using hkinds
    · simp at hkinds
  cases call with
  | mapInstr | mapExpr | mapLval => exact hregister h
  | _ => cases h

namespace Session

variable {s s' : Session} {first : FlowKind → Nat}

/-- **The step.** No change that lifting an instruction makes reports error values. -/
theorem Advance.errorReports (h : Advance first s s') :
    errorReports s'.diagnostics = errorReports s.diagnostics := by
  cases h with
  | edit h =>
    cases h with
    | report d hd =>
      have hother : ∀ d' ∈ [d], d'.kind ≠ .errorValuedRecord := by
        intro d' hd' hkind
        rw [List.mem_singleton.mp hd'] at hkind
        simp [hkind, DiagnosticKind.isPlaceholder] at hd
      show FactLift.errorReports (s.diagnostics ++ [d]) = _
      rw [errorReports_append, errorReports_of_other hother, List.append_nil]
    | note | locals | temporary | global | stop => rfl
  | handOut | number => rfl
  | record call =>
    have hother : ∀ d ∈ (s.provenance.record call).2.toList, d.kind ≠ .errorValuedRecord := by
      intro d hd
      rw [Provenance.kind_of_record (Option.mem_toList.mp hd)]
      decide
    rw [record_eq, errorReports_append, errorReports_of_other hother, List.append_nil]

theorem errorReports_of_advances (h : Relation.ReflTransGen (Advance first) s s') :
    FactLift.errorReports s'.diagnostics = FactLift.errorReports s.diagnostics := by
  induction h with
  | refl => rfl
  | tail _ hstep ih => exact hstep.errorReports.trans ih

/-- The symbols are the same: the local ones with the variables and constants of definitions, the
temporaries and the global ones. -/
structure SameSymbols (s s' : Session) : Prop where
  locals : s'.locals = s.locals
  temporaries : s'.temporaries = s.temporaries
  globals : s'.globals = s.globals

theorem SameSymbols.refl (s : Session) : s.SameSymbols s := ⟨rfl, rfl, rfl⟩

theorem SameSymbols.trans {s'' : Session} (h : s.SameSymbols s') (h' : s'.SameSymbols s'') :
    s.SameSymbols s'' :=
  ⟨h'.locals.trans h.locals, h'.temporaries.trans h.temporaries, h'.globals.trans h.globals⟩

/-- The provenance has no symbols. -/
theorem recordAll_sameSymbols (s : Session) (calls : List Recording) :
    s.SameSymbols (s.recordAll calls) := by
  induction calls generalizing s with
  | nil => exact .refl s
  | cons call calls ih =>
    have hstep : s.SameSymbols (s.record call) := by
      rw [record_eq]
      exact ⟨rfl, rfl, rfl⟩
    exact hstep.trans (ih (s.record call))

theorem note_sameSymbols (s : Session) (rs : List LogRecord) :
    s.SameSymbols (rs.foldl note s) ∧ (rs.foldl note s).diagnostics = s.diagnostics := by
  induction rs generalizing s with
  | nil => exact ⟨.refl s, rfl⟩
  | cons r rs ih => exact ⟨⟨(ih (s.note r)).1.locals, (ih (s.note r)).1.temporaries,
      (ih (s.note r)).1.globals⟩, (ih (s.note r)).2⟩

end Session

/-! ### Operations -/

/-- An instruction that does nothing, in both forms with this text. -/
def Lifted.IsNop (l : Lifted) (text : String) : Prop :=
  ∃ i : Forms Instr, l = .instr i ∧ i.low.tree = .nop text ∧ i.high.tree = .nop text

/-- What is reported about a record with error values. -/
def Decoded.errorReport (d : Decoded) (o : Opcode) (address : UInt64) : Diagnostic where
  site := some address
  kind := .errorValuedRecord
  message :=
    s!"{o.mnemonic}: error values at vars {Text.bracketed d.gaps.1}, " ++
      s!"xprs {Text.bracketed d.gaps.2.1}, committed {Text.bracketed d.gaps.2.2}"

/-- What stands for an instruction that is not lifted. -/
def Operation.dropped (o : Operation) (r : Record) : String :=
  if r.isSubsumed then "subsumed" else o.opcode.mnemonic ++ " (unavailable)"

namespace LiftM

theorem sized_liftNop (size : Nat) (text : String) (site : Site) (s : Session) :
    (sized size (liftNop text) site s).1.IsNop text ∧
      s.SameSymbols (sized size (liftNop text) site s).2 := by
  let numbered : Session := { s with nextInstr := s.nextInstr + 2 }
  have hnumbered : s.SameSymbols numbered := ⟨rfl, rfl, rfl⟩
  have hlinked : s.SameSymbols (liftNop text site s).2 := by
    rw [liftNop, linkInstrs_eq]
    exact hnumbered.trans (numbered.recordAll_sameSymbols _)
  have hspan (linked : Session) (i : Forms Instr) :
      linked.SameSymbols (recordSpan i size site linked).2 := by
    rw [recordSpan_eq]
    exact linked.recordAll_sameSymbols _
  exact ⟨⟨_, rfl, rfl, rfl⟩, hlinked.trans (hspan _ _)⟩

/-- An instruction that is not lifted only numbers a `nop`, after its record was reported. -/
theorem liftOperation_dropped (o : Operation) {r : Record} {d : Decoded} (size : Nat)
    (h : r.isSubsumed = true ∨ d.isOk = false) (site : Site) (s : Session) :
    let reported := if r.isSubsumed then s else s.report (d.errorReport o.opcode site.address)
    (liftOperation o r d size).run site s =
      (.ok (sized size (liftNop (o.dropped r)) site reported).1,
        (sized size (liftNop (o.dropped r)) site reported).2) := by
  intro reported
  cases hsubsumed : r.isSubsumed with
  | true =>
    simp only [liftOperation, reported, Operation.dropped, hsubsumed]
    rfl
  | false =>
    have hd : d.isOk = false := h.resolve_left (by simp [hsubsumed])
    simp only [liftOperation, reported, Operation.dropped, hsubsumed, hd]
    rfl

end LiftM

/-! ### Instructions -/

namespace InstructionFacts

variable {cfg : Config} {cx : DecodeContext} {i : InstructionFacts}

/-- The record of the instruction can be decoded, but it belongs to another instruction or has error
values. -/
def IsDropped (cx : DecodeContext) (i : InstructionFacts) : Prop :=
  ∃ d, decodeRecord cx i.record = .ok d ∧ (i.record.isSubsumed = true ∨ d.isOk = false)

/-- The report about the record of the instruction: it has error values and does not belong to
another instruction. -/
def errorReport? (cx : DecodeContext) (i : InstructionFacts) : Option Diagnostic :=
  match decodeRecord cx i.record with
  | .ok d =>
    if !i.record.isSubsumed && !d.isOk then some (d.errorReport i.operation.opcode i.address)
    else none
  | .error _ => none

end InstructionFacts

section Instruction

variable {cfg : Config} {cx : DecodeContext} {i : InstructionFacts}

/-- **Neutral.** An instruction that is dropped always lifts, to a `nop` in both forms, and leaves
the symbols of the session as they are. -/
theorem liftInstruction_dropped (cfg : Config) (h : i.IsDropped cx) (s : Session) :
    ∃ l s', liftInstruction cfg cx i s = (.ok l, s') ∧ l.IsNop (i.operation.dropped i.record) ∧
      s.SameSymbols s' := by
  obtain ⟨d, hd, hdropped⟩ := h
  let noted := (decodeNotes cfg cx i.record).foldl Session.note s
  let site : Site := ⟨cfg, i.address, d.reachingDefs.filterMap Fact.value?⟩
  let start : Session := { noted with pending := .ofDecoded d }
  let reported := if i.record.isSubsumed then start
    else start.report (d.errorReport i.operation.opcode i.address)
  have hreported : s.SameSymbols reported := by
    obtain ⟨hnoted, -⟩ := s.note_sameSymbols (decodeNotes cfg cx i.record)
    dsimp only [reported]
    split
    · exact hnoted.trans ⟨rfl, rfl, rfl⟩
    · exact hnoted.trans ⟨rfl, rfl, rfl⟩
  obtain ⟨hnop, hsame⟩ := LiftM.sized_liftNop i.size (i.operation.dropped i.record) site reported
  refine ⟨_, _, ?_, hnop, hreported.trans hsame⟩
  have hrun := LiftM.liftOperation_dropped i.operation i.size hdropped site start
  rw [liftInstruction, hd]
  exact hrun

/-- **The step.** An instruction reports error values if its record has some, and nothing else
does. -/
theorem liftInstruction_errorReports {s s' : Session} {l : Lifted}
    (h : liftInstruction cfg cx i s = (.ok l, s')) :
    errorReports s'.diagnostics = errorReports s.diagnostics ++ (i.errorReport? cx).toList := by
  obtain ⟨-, hnoted⟩ := s.note_sameSymbols (decodeNotes cfg cx i.record)
  cases hd : decodeRecord cx i.record with
  | error e => simp [liftInstruction, hd] at h
  | ok d =>
    let noted := (decodeNotes cfg cx i.record).foldl Session.note s
    let site : Site := ⟨cfg, i.address, d.reachingDefs.filterMap Fact.value?⟩
    let start : Session := { noted with pending := .ofDecoded d }
    have hrun : ((LiftM.liftOperation i.operation i.record d i.size).run site start).2 = s' := by
      rw [liftInstruction, hd] at h
      exact congrArg Prod.snd h
    by_cases hlifted : i.record.isSubsumed = true ∨ d.isOk = true
    · have hnone : i.errorReport? cx = none := by
        rcases hlifted with h | h <;> simp [InstructionFacts.errorReport?, hd, h]
      have hquiet := Session.errorReports_of_advances
        (LiftM.liftOperation_advances i.operation i.size hlifted site start)
      rw [hnone, Option.toList_none, List.append_nil, ← hnoted, ← hrun]
      exact hquiet
    · obtain ⟨hsubsumed, hbad⟩ : i.record.isSubsumed = false ∧ d.isOk = false := by
        simpa using hlifted
      let report := d.errorReport i.operation.opcode i.address
      let text := i.operation.dropped i.record
      have hreported :
          (LiftM.sized i.size (LiftM.liftNop text) site (start.report report)).2 = s' := by
        have hdropped := LiftM.liftOperation_dropped i.operation (r := i.record) i.size
          (.inr hbad) site start
        rw [hdropped, hsubsumed] at hrun
        exact hrun
      have hquiet := Session.errorReports_of_advances
        (LiftM.sized_advances i.size (LiftM.liftNop_advances text) site (start.report report))
      have hsome : i.errorReport? cx = some report := by
        simp [InstructionFacts.errorReport?, hd, hsubsumed, hbad, report]
      rw [hsome, ← hreported, hquiet, ← hnoted]
      exact errorReports_append start.diagnostics [report]

end Instruction

/-! ### Functions -/

namespace LiftRun

variable {cfg : Config} {cx : DecodeContext} {s s' : Session} {is : List InstructionFacts}
  {ls : List Lifted}

/-- **The run.** -/
theorem errorReports (h : LiftRun cfg cx s is ls s') :
    FactLift.errorReports s'.diagnostics =
      FactLift.errorReports s.diagnostics ++ is.filterMap (·.errorReport? cx) := by
  induction h with
  | nil => simp
  | @cons s s₁ s' i is l ls head _ ih =>
    rw [ih, liftInstruction_errorReports head]
    cases hreport : i.errorReport? cx <;> simp [hreport]

theorem isNop_of_isDropped (h : LiftRun cfg cx s is ls s') :
    ∀ il ∈ is.zip ls, il.1.IsDropped cx → il.2.IsNop (il.1.operation.dropped il.1.record) := by
  induction h with
  | nil => exact List.forall_mem_nil _
  | @cons s s₁ s' i is l ls head _ ih =>
    rw [List.zip_cons_cons, List.forall_mem_cons]
    refine ⟨fun hdropped => ?_, ih⟩
    obtain ⟨l', s'', hlift, hnop, -⟩ := liftInstruction_dropped cfg hdropped s
    obtain ⟨hl, -⟩ : Except.ok l = Except.ok l' ∧ s₁ = s'' := Prod.mk.inj (head.symm.trans hlift)
    cases hl
    exact hnop

end LiftRun

variable {cfg : Config} {p : ProgramFacts} {f : FunctionFacts} {w w' : Workspace}
  {lifted : LiftedFunction}

/-- **Error values are neutralized.** The reports about error values in a function that lifts are
those of the records that have some and are not part of another one, in the order of the
instructions. Each such instruction, and each that is part of another one, is one `nop` in both
bodies; and in whatever session it is lifted, it leaves the symbols alone. -/
theorem liftFunction_neutralizes_errors (h : liftFunction cfg p f w = (.ok lifted, w')) :
    errorReports lifted.diagnostics =
        f.instructions.filterMap (·.errorReport? (p.context f)) ∧
      (∃ ls s lows highs, LiftRun cfg (p.context f) (f.entry w) f.instructions ls s ∧
        ls.length = f.instructions.length ∧ lifted.Mirrors ls lows highs ∧
        ∀ il ∈ f.instructions.zip ls, il.1.IsDropped (p.context f) →
          il.2.IsNop (il.1.operation.dropped il.1.record)) ∧
      ∀ i ∈ f.instructions, i.IsDropped (p.context f) → ∀ s, ∃ l s',
        liftInstruction cfg (p.context f) i s = (.ok l, s') ∧
          l.IsNop (i.operation.dropped i.record) ∧ s.SameSymbols s' := by
  refine ⟨?_, ?_, fun i _ hdropped => liftInstruction_dropped cfg hdropped⟩
  · obtain ⟨ls, s, hrun, -, -, hdiagnostics⟩ := liftFunction_run h
    have hdangling : errorReports s.provenance.resolve.2 = [] :=
      errorReports_of_other fun d hd => by simp [Provenance.kind_of_mem_resolve hd]
    rw [hdiagnostics, errorReports_append, hdangling, List.append_nil, hrun.errorReports]
    rfl
  · obtain ⟨ls, s, lows, highs, hrun, hlength, hmirrors⟩ := liftFunction_bodies_aligned h
    exact ⟨ls, s, lows, highs, hrun, hlength, hmirrors, hrun.isNop_of_isDropped⟩

/-- An assignment of something that has no value, a call that is part of it, and then a loop. -/
def patchy : FunctionFacts :=
  { loop with
    name := "patchy"
    instructions :=
      { bareInstruction 0xff8 .assign ⟨["assign"], [3, 4]⟩ rfl with
          record := ⟨1, ["ar:vx"], [-2, -2]⟩ } ::
        { bareInstruction 0xffc .call ⟨["call"], [5]⟩ rfl with
          record := ⟨1, ["ar:x", "subsumed"], [-2]⟩ } :: loop.instructions }

theorem liftFunction_neutralizes_errors_of_patchy :
    ∃ lifted w', liftFunction {} loopProgram patchy {} = (.ok lifted, w') ∧
      (errorReports lifted.diagnostics).map Diagnostic.site = [some 0xff8] ∧
      (∀ i ∈ patchy.instructions.take 2, i.IsDropped (loopProgram.context patchy)) ∧
      ∃ ls s lows highs, LiftRun {} (loopProgram.context patchy) (patchy.entry {})
        patchy.instructions ls s ∧ ls.length = 6 ∧ lifted.Mirrors ls lows highs := by
  have hlifts : (liftFunction {} loopProgram patchy {}).1.toBool = true := by decide
  rcases hrun : liftFunction {} loopProgram patchy {} with ⟨_ | lifted, w'⟩
  · rw [hrun] at hlifts
    cases hlifts
  · obtain ⟨hreports, ⟨ls, s, lows, highs, hls, hlength, hmirrors, -⟩, -⟩ :=
      liftFunction_neutralizes_errors hrun
    refine ⟨lifted, w', rfl, ?_, ?_, ls, s, lows, highs, hls, hlength, hmirrors⟩
    · rw [hreports]
      decide
    · refine List.forall_mem_cons.mpr ⟨⟨_, rfl, .inr rfl⟩, List.forall_mem_cons.mpr ⟨?_, ?_⟩⟩
      · exact ⟨_, rfl, .inl rfl⟩
      · exact List.forall_mem_nil _

end FactLift
