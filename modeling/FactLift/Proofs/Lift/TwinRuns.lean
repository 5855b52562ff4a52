import FactLift.Proofs.Lift.Run
import FactLift.Proofs.Lift.TwinParts

/-! Lifting a function twice, over different global symbols.

An instruction leads to the questions of its operands, and a call also to the question for the
function that it names. Its two lifts agree if the global symbols answer these alike
(`liftOperation_agrees`), so those of a function do, instruction by instruction
(`liftFunction_agrees`). -/

namespace FactLift

open C

/-! ### The questions of facts -/

/-- The questions about global symbols that the values of a record lead to. -/
def Decoded.lookups (d : Decoded) : List Lookup :=
  (d.vars ++ d.varsResult.filterMap Fact.value?).flatMap Sym.Variable.lookups ++
    (d.exprs ++ (d.exprsResult ++ d.committedExprs ++ d.returnValue.toList).filterMap
      Fact.value?).flatMap Sym.Expr.lookups

/-- The function that an operation calls by name. -/
def Operation.callee? (o : Operation) (d : Decoded) : Option String :=
  if o.opcode = .call then LiftM.calleeName? d else none

/-- The questions about global symbols that an instruction leads to: none if it is not lifted. -/
def InstructionFacts.lookups (cx : DecodeContext) (i : InstructionFacts) : List Lookup :=
  match decodeRecord cx i.record with
  | .error _ => []
  | .ok d =>
    if i.record.isSubsumed || !d.isOk then []
    else d.lookups ++ (i.operation.callee? d).toList.map .function

/-- The questions about global symbols that a function leads to. -/
def FunctionFacts.lookups (p : ProgramFacts) (f : FunctionFacts) : List Lookup :=
  f.instructions.flatMap (InstructionFacts.lookups (p.context f))

namespace Decoded

theorem mem_filterMap_of_getElem? {α : Type} {facts : List (Fact α)} {n : Nat} {a : α}
    (h : facts[n]?.bind Fact.value? = some a) : a ∈ facts.filterMap Fact.value? := by
  obtain ⟨fact, hfact, ha⟩ := Option.bind_eq_some_iff.mp h
  exact List.mem_filterMap.mpr ⟨fact, List.mem_of_getElem? hfact, ha⟩

section Operands

variable {d : Decoded} {qs : List Lookup} {v : Sym.Variable} {x : Sym.Expr} (hd : d.lookups ⊆ qs)
include hd

theorem lookups_of_var (h : v ∈ d.vars ++ d.varsResult.filterMap Fact.value?) : v.lookups ⊆ qs :=
  fun _ hq => hd (List.mem_append_left _ (List.mem_flatMap.mpr ⟨v, h, hq⟩))

theorem lookups_of_expr (h : x ∈ d.exprs ++
    (d.exprsResult ++ d.committedExprs ++ d.returnValue.toList).filterMap Fact.value?) :
    x.lookups ⊆ qs :=
  fun _ hq => hd (List.mem_append_right _ (List.mem_flatMap.mpr ⟨x, h, hq⟩))

theorem lookups_of_target (h : d.target? = some v) : v.lookups ⊆ qs := by
  refine lookups_of_var hd ?_
  rcases Option.or_eq_some_iff.mp h with h | ⟨-, h⟩
  · exact List.mem_append_right _ (mem_filterMap_of_getElem? h)
  · exact List.mem_append_left _ (List.mem_of_head? h)

theorem lookups_of_exprs (h : x ∈ d.exprs) : x.lookups ⊆ qs :=
  lookups_of_expr hd (List.mem_append_left _ h)

theorem lookups_of_preferred {cfg : Config} {n : Nat} (h : d.preferred? cfg n = some x) :
    x.lookups ⊆ qs := by
  refine lookups_of_expr hd ?_
  rw [List.filterMap_append, List.filterMap_append]
  rcases Option.or_eq_some_iff.mp h with h | ⟨-, h⟩
  · rcases Option.or_eq_some_iff.mp h with h | ⟨-, h⟩
    · split at h
      · have hmem := mem_filterMap_of_getElem? h
        simp [hmem]
      · cases h
    · have hmem := mem_filterMap_of_getElem? h
      simp [hmem]
  · exact List.mem_append_left _ (List.mem_of_getElem? h)

theorem lookups_of_callArguments (h : x ∈ LiftM.callArguments d) : x.lookups ⊆ qs := by
  unfold LiftM.callArguments at h
  split at h
  · exact lookups_of_exprs hd h
  · refine lookups_of_expr hd ?_
    rw [List.filterMap_append, List.filterMap_append]
    simp [h]

theorem lookups_of_headD (hx : x.lookups ⊆ qs) : (d.exprs.headD x).lookups ⊆ qs := by
  rcases hexprs : d.exprs with _ | ⟨y, rest⟩
  · exact hx
  · exact lookups_of_exprs hd (by simp [hexprs])

theorem lookups_of_returned {cfg : Config} {value : Forms Sym.Expr}
    (h : LiftM.returned? cfg d = some value) :
    value.low.lookups ⊆ qs ∧ value.high.lookups ⊆ qs := by
  obtain ⟨high, hhigh, rfl⟩ := Option.map_eq_some_iff.mp h
  have hlookups : high.lookups ⊆ qs := by
    rcases Option.or_eq_some_iff.mp hhigh with hreturn | ⟨-, hpreferred⟩
    · refine lookups_of_expr hd ?_
      obtain ⟨fact, hfact, hvalue⟩ := Option.bind_eq_some_iff.mp hreturn
      rw [List.filterMap_append, hfact]
      simp [hvalue]
    · exact lookups_of_preferred hd hpreferred
  exact ⟨lookups_of_headD hd hlookups, hlookups⟩

end Operands

end Decoded

/-! ### Operations -/

/-- Something lifted, without numbers. -/
def Lifted.unnumbered : Lifted → Lifted
  | .instr i => .instr (i.map unnumberedInstr)
  | .stmt s => .stmt (s.map Stmt.unnumbered)

namespace Pairing

variable {c : Pairing}

/-- Two lifts that stop with the same error, or give the same but for numbers. -/
def LiftedAlike (r r' : Except Error Lifted) : Prop :=
  r.map Lifted.unnumbered = r'.map Lifted.unnumbered

/-- An action that may stop, and does so on both of two twins. -/
def AgreesE (x x' : LiftE Lifted) : Prop := c.Agrees LiftedAlike x.run x'.run

namespace AgreesE

theorem throw (e : Error) : c.AgreesE (throw e) (throw e) := fun _ _ _ hs => ⟨rfl, hs⟩

theorem bind {α : Type} {x : LiftM α} {f : α → LiftE Lifted} (hx : c.Same x)
    (hf : ∀ a, c.AgreesE (f a) (f a)) : c.AgreesE (liftM x >>= f) (liftM x >>= f) :=
  Agrees.bind hx fun a _ h => h ▸ hf a

theorem sized {x : LiftM (Forms Instr)} (size : Nat) (hx : c.Agrees InstrsAlike x x) :
    c.AgreesE (liftM (LiftM.sized size x)) (liftM (LiftM.sized size x)) := by
  have hsized : c.Agrees (fun l l' => l.unnumbered = l'.unnumbered) (LiftM.sized size x)
      (LiftM.sized size x) := by
    refine .bind hx fun i i' hi => ?_
    have hspan : c.Agrees Eq (LiftM.recordSpan i size) (LiftM.recordSpan i' size) := fun site =>
      recordBoth_unresolved (fun p i => p.sameFacts_addSpan i ⟨site.address, size⟩) site
    exact .bind hspan fun _ _ _ => .pure (congrArg Lifted.instr hi)
  intro site s s' hs
  exact ⟨congrArg Except.ok (hsized site s s' hs).1, (hsized site s s' hs).2⟩

theorem stmt {x : LiftM (Forms Stmt)} (hx : c.Agrees StmtsAlike x x) :
    c.AgreesE (do return .stmt (← x)) (do return .stmt (← x)) :=
  Agrees.bind hx fun _ _ hs => .pure (congrArg (fun s => Except.ok (Lifted.stmt s)) hs)

end AgreesE

theorem liftNop_agrees (text : String) :
    c.Agrees InstrsAlike (LiftM.liftNop text) (LiftM.liftNop text) :=
  linkInstrs_agrees rfl

/-- **The step.** An operation agrees if its questions are answered alike. -/
theorem liftOperation_agrees (o : Operation) (r : Record) (d : Decoded) (size : Nat)
    (hd : ¬ r.isSubsumed → d.isOk → d.lookups ⊆ c.asks ∧
      ∀ n ∈ o.callee? d, .function n ∈ c.asks) :
    c.AgreesE (LiftM.liftOperation o r d size) (LiftM.liftOperation o r d size) := by
  refine .bind read_same fun site => ?_
  split
  · exact .sized size (liftNop_agrees _)
  next hsubsumed =>
  split
  · exact .bind (report_same _ _) fun _ => .sized size (liftNop_agrees _)
  next hok =>
  obtain ⟨hasks, hcallee⟩ := hd hsubsumed (by simpa using hok)
  refine .bind (note_same _) fun _ => ?_
  split
  · unfold LiftM.liftAssignment
    split
    next target htarget =>
      split
      next value hvalue =>
        have hhigh := Decoded.lookups_of_preferred hasks hvalue
        exact .sized size (liftAssign_agrees (Decoded.lookups_of_target hasks htarget)
          (Decoded.lookups_of_headD hasks hhigh) hhigh
          fun x hx => Decoded.lookups_of_exprs hasks (List.mem_of_getElem? hx))
      next => exact .throw _
    next => exact .throw _
  next hcall =>
    rw [Operation.callee?, if_pos hcall] at hcallee
    exact .sized size (liftCall_agrees (fun v hv => Decoded.lookups_of_target hasks hv) hcallee
      nofun fun x hx => Decoded.lookups_of_callArguments hasks hx)
  · exact .stmt (liftReturn_agrees fun x hx => Decoded.lookups_of_returned hasks hx)
  · split
    · rw [LiftM.branchCondition?_bind]
      exact .stmt (liftBranch_agrees _ fun x hx =>
        Decoded.lookups_of_exprs hasks (List.mem_of_head? hx))
    · exact .throw _
  · exact .sized size (liftNop_agrees _)

/-! ### Instructions -/

theorem Twins.notes {s s' : Session} (h : c.Twins s s') (notes : List LogRecord) :
    c.Twins (notes.foldl Session.note s) (notes.foldl Session.note s') := by
  induction notes generalizing s s' with
  | nil => exact h
  | cons r rest ih => exact ih (note_same r ⟨{}, 0, []⟩ s s' h).2

theorem liftInstruction_agrees (cfg : Config) {cx : DecodeContext} {i : InstructionFacts}
    (hi : i.lookups cx ⊆ c.asks) {s s' : Session} (h : c.Twins s s') :
    LiftedAlike (liftInstruction cfg cx i s).1 (liftInstruction cfg cx i s').1 ∧
      c.Twins (liftInstruction cfg cx i s).2 (liftInstruction cfg cx i s').2 := by
  have hnotes := h.notes (decodeNotes cfg cx i.record)
  unfold InstructionFacts.lookups at hi
  unfold liftInstruction
  cases hd : decodeRecord cx i.record with
  | error e => exact ⟨rfl, hnotes⟩
  | ok d =>
    rw [hd] at hi
    refine liftOperation_agrees i.operation i.record d i.size (fun hsubsumed hok => ?_) _ _ _
      ⟨hnotes.globals, hnotes.made, hnotes.locals, hnotes.temporaries, hnotes.diagnostics, rfl,
        hnotes.provenance⟩
    have hlifted : ¬ (i.record.isSubsumed || !d.isOk) = true := by simp [hsubsumed, hok]
    simp only [if_neg hlifted] at hi
    obtain ⟨hoperands, hcallee⟩ := List.append_subset.mp hi
    exact ⟨hoperands, fun n hn => hcallee (List.mem_map_of_mem (Option.mem_toList.mpr hn))⟩

end Pairing

def Piece.unnumbered (piece : Piece) : Piece := ⟨piece.label, piece.lifted.unnumbered⟩

section Run

variable (cfg : Config) {cx : DecodeContext} (targets : List UInt64) {i : InstructionFacts}
  (rest : List InstructionFacts) {s s₁ : Session}

theorem liftInstructions_stop {e : Error} (h : liftInstruction cfg cx i s = (.error e, s₁)) :
    liftInstructions cfg cx targets (i :: rest) s = (.error e, s₁) := by
  rw [liftInstructions, h]

theorem liftInstructions_go {l : Lifted} (h : liftInstruction cfg cx i s = (.ok l, s₁)) :
    liftInstructions cfg cx targets (i :: rest) s =
      ((liftInstructions cfg cx targets rest s₁).1.map (⟨i.label? targets, l⟩ :: ·),
        (liftInstructions cfg cx targets rest s₁).2) := by
  rw [liftInstructions, h]
  rfl

end Run

theorem map_unnumbered_cons (r : Except Error (List Piece)) (piece : Piece) :
    (r.map (piece :: ·)).map (List.map Piece.unnumbered) =
      (r.map (List.map Piece.unnumbered)).map (piece.unnumbered :: ·) := by
  cases r <;> rfl

namespace Pairing

variable {c : Pairing}

/-- **The run.** The instructions of a function agree one after the other, up to the first that
cannot be lifted. -/
theorem liftInstructions_agrees (cfg : Config) {cx : DecodeContext} (targets : List UInt64)
    {is : List InstructionFacts} (his : is.flatMap (InstructionFacts.lookups cx) ⊆ c.asks)
    {s s' : Session} (h : c.Twins s s') :
    (liftInstructions cfg cx targets is s).1.map (List.map Piece.unnumbered) =
        (liftInstructions cfg cx targets is s').1.map (List.map Piece.unnumbered) ∧
      c.Twins (liftInstructions cfg cx targets is s).2
        (liftInstructions cfg cx targets is s').2 := by
  induction is generalizing s s' with
  | nil => exact ⟨rfl, h⟩
  | cons i rest ih =>
    rw [List.flatMap_cons] at his
    obtain ⟨hlifted, htwins⟩ := liftInstruction_agrees cfg (List.append_subset.mp his).1 h
    rcases hrun : liftInstruction cfg cx i s with ⟨_ | l, s₁⟩ <;>
      rcases hrun' : liftInstruction cfg cx i s' with ⟨_ | l', s₁'⟩ <;>
      rw [hrun, hrun'] at hlifted htwins
    · rw [liftInstructions_stop cfg targets rest hrun, liftInstructions_stop cfg targets rest hrun']
      exact ⟨congrArg Except.error (Except.error.inj hlifted), htwins⟩
    · cases hlifted
    · cases hlifted
    · rw [liftInstructions_go cfg targets rest hrun, liftInstructions_go cfg targets rest hrun']
      obtain ⟨hpieces, hrest⟩ := ih (List.append_subset.mp his).2 htwins
      have hl : l.unnumbered = l'.unnumbered := Except.ok.inj hlifted
      refine ⟨?_, hrest⟩
      rw [map_unnumbered_cons, map_unnumbered_cons, hpieces, Piece.unnumbered, Piece.unnumbered, hl]

end Pairing

/-! ### Bodies -/

section Assemble

variable (labels : List Label)

theorem map_unnumbered_sequence (run : List (Forms Instr)) :
    (sequence labels run).map (Forms.map Stmt.unnumbered) =
      sequence labels (run.map (Forms.map unnumberedInstr)) := by
  unfold sequence
  cases run with
  | nil => rfl
  | cons i rest => simp [Forms.map, Stmt.unnumbered, StmtBody.unnumbered, Function.comp_def]

theorem unnumbered_labelled (label : Label) (s : Forms Stmt) :
    (labelled label s).map Stmt.unnumbered = labelled label (s.map Stmt.unnumbered) := by
  obtain ⟨low, ⟨labels, body⟩⟩ := s
  rfl

/-- Numbers play no part in putting pieces together. -/
theorem map_unnumbered_assembleAfter (run : List (Forms Instr)) (pieces : List Piece) :
    (assembleAfter labels run pieces).map (Forms.map Stmt.unnumbered) =
      assembleAfter labels (run.map (Forms.map unnumberedInstr)) (pieces.map Piece.unnumbered) := by
  induction labels, run, pieces using assembleAfter.induct with
  | case1 labels run => exact map_unnumbered_sequence labels run
  | case2 labels run i rest ih =>
    rw [assembleAfter, ih, List.map_append]
    rfl
  | case3 labels run s rest ih =>
    rw [assembleAfter, List.map_append, map_unnumbered_sequence, List.map_cons, ih]
    rfl
  | case4 labels run l i rest ih =>
    rw [assembleAfter, List.map_append, map_unnumbered_sequence, ih]
    rfl
  | case5 labels run l s rest ih =>
    rw [assembleAfter, List.map_append, map_unnumbered_sequence, List.map_cons, ih,
      unnumbered_labelled]
    rfl

end Assemble

/-- The body of a function without numbers is put together from the pieces without numbers. -/
theorem unnumbered_assemble (pieces : List Piece) :
    (assemble pieces).map Stmt.unnumbered = assemble (pieces.map Piece.unnumbered) := by
  have h := map_unnumbered_assembleAfter [] [] pieces
  rw [List.map_nil] at h
  simp [assemble, ← h, Forms.map, Stmt.ofBody, Stmt.unnumbered, StmtBody.unnumbered,
    unnumberedStmts_eq_map, Function.comp_def]

/-! ### Functions -/

/-- A lifted function without the numbers of its nodes: the bodies, the local variables and the
diagnostics. -/
def LiftedFunction.unnumbered (l : LiftedFunction) : Forms Stmt × Locals × List Diagnostic :=
  (l.body.map Stmt.unnumbered, l.locals, l.diagnostics)

namespace Session

/-- Reporting touches nothing but the diagnostics and the log. -/
theorem foldl_report_symbols (ds : List Diagnostic) (s : Session) :
    (ds.foldl Session.report s).locals = s.locals ∧
      (ds.foldl Session.report s).globals = s.globals := by
  induction ds generalizing s with
  | nil => exact ⟨rfl, rfl⟩
  | cons d rest ih => exact ih (s.report d)

theorem finish_unnumbered (s : Session) (body : Forms Stmt) :
    (s.finish body).1.unnumbered =
      (body.map Stmt.unnumbered, s.locals, s.diagnostics ++ s.provenance.resolve.2) := by
  simp only [LiftedFunction.unnumbered, finish_diagnostics]
  simp only [finish, note, foldl_report_symbols]

theorem finish_globals (s : Session) (body : Forms Stmt) :
    (s.finish body).2.globals = s.globals := by
  simp only [finish, note, foldl_report_symbols]

end Session

/-- A lift of a function, from the lift of its instructions. -/
theorem liftFunction_eq (cfg : Config) (p : ProgramFacts) (f : FunctionFacts) (w : Workspace) :
    let r := liftInstructions cfg (p.context f) f.branchTargets f.instructions (f.entry w)
    (liftFunction cfg p f w).1.map LiftedFunction.unnumbered =
        r.1.map (fun pieces => ((assemble pieces).map Stmt.unnumbered, r.2.locals,
          r.2.diagnostics ++ r.2.provenance.resolve.2)) ∧
      (liftFunction cfg p f w).2.globals = r.2.globals := by
  unfold FunctionFacts.entry liftFunction
  dsimp only
  split
  next e s hrun =>
    rw [hrun]
    exact ⟨rfl, rfl⟩
  next pieces s hrun =>
    rw [hrun]
    exact ⟨congrArg Except.ok (s.finish_unnumbered _), s.finish_globals _⟩

namespace Pairing

variable {c : Pairing}

theorem twins_entry (h : c.left.globals.Alike c.asks c.right.globals) (f : FunctionFacts) :
    c.Twins (f.entry c.left) (f.entry c.right) :=
  ⟨h, .refl, rfl, rfl, rfl, rfl, Provenance.shifted_empty _ _⟩

/-- **The function.** The lifts of a function are the same but for the numbers of nodes, if the
global symbols answer its questions alike, and they go on doing so. -/
theorem liftFunction_agrees (h : c.left.globals.Alike c.asks c.right.globals) (cfg : Config)
    {p : ProgramFacts} {f : FunctionFacts} (hf : f.lookups p ⊆ c.asks) :
    (liftFunction cfg p f c.left).1.map LiftedFunction.unnumbered =
        (liftFunction cfg p f c.right).1.map LiftedFunction.unnumbered ∧
      c.left.globals.Made c.asks (liftFunction cfg p f c.left).2.globals := by
  obtain ⟨hresult, hglobals⟩ := liftFunction_eq cfg p f c.left
  obtain ⟨hresult', -⟩ := liftFunction_eq cfg p f c.right
  obtain ⟨hpieces, htwins⟩ := liftInstructions_agrees cfg f.branchTargets hf (twins_entry h f)
  refine ⟨?_, hglobals ▸ htwins.made⟩
  have hbody (r : Except Error (List Piece)) (found : Locals × List Diagnostic) :
      r.map (fun pieces => ((assemble pieces).map Stmt.unnumbered, found)) =
        (r.map (List.map Piece.unnumbered)).map fun pieces => (assemble pieces, found) := by
    cases r <;> simp [Except.map, unnumbered_assemble]
  rw [hresult, hresult', htwins.locals, htwins.diagnostics, htwins.provenance.dangling, hbody,
    hbody, hpieces]

end Pairing

end FactLift
