import FactLift.FactFile.Load
import FactLift.Proofs.Except

/-! When a function is set aside.

Each instruction is checked at its number, whatever the others are (`checkInstructions_eq_mapM`).
So a function is refused when its dataflow facts cannot be decoded or when the opcode record of one
of its instructions is refused, and for no other reason (`DraftFunction.check_refuses_iff`). When it
is closed, it goes to one of two lists (`Draft.close_eq`). -/

namespace FactLift

namespace FactFile

def DraftInstruction.check (i : DraftInstruction) (index : Nat) : Except Error InstructionFacts :=
  (⟨i.address, i.size, ·, ⟨index, i.facts⟩⟩) <$> Operation.ofRecord ⟨index, i.opcode⟩

/-- Instructions are checked one by one. -/
theorem checkInstructions_eq_mapM (index : Nat) (is : List DraftInstruction) :
    (checkInstructions index is).mapError Prod.snd =
      (is.zipIdx index).mapM fun (i, n) => i.check n := by
  induction is generalizing index with
  | nil => rfl
  | cons i is ih =>
    rw [List.zipIdx_cons, List.mapM_cons, ← ih (index + 1), checkInstructions]
    dsimp only [DraftInstruction.check]
    cases Operation.ofRecord ⟨index, i.opcode⟩ with
    | error e => rfl
    | ok operation => cases checkInstructions (index + 1) is <;> rfl

namespace DraftFunction

variable (f : DraftFunction)

theorem check_fst : f.check.1 = do
    let flows ← f.flows.mapM fun t => FlowStore.decode t f.dictionary
    let instructions ← (f.instructions.zipIdx 1).mapM fun (i, n) => i.check n
    return { name := f.name, address := f.address, formals := f.formals
             dictionary := f.dictionary, flows, instructions } := by
  rw [← checkInstructions_eq_mapM, check]
  cases f.flows.mapM fun t => FlowStore.decode t f.dictionary with
  | error e => rfl
  | ok flows => cases checkInstructions 1 f.instructions <;> rfl

/-- A function whose dataflow facts cannot be decoded, or with an opcode record that is refused. -/
def Refused : Prop :=
  (∃ t ∈ f.flows, ∃ e, FlowStore.decode t f.dictionary = .error e) ∨
    ∃ i n, (i, n) ∈ f.instructions.zipIdx 1 ∧ ∃ e, Operation.ofRecord ⟨n, i.opcode⟩ = .error e

/-- **Refusals.** -/
theorem check_refuses_iff : (∃ e, f.check.1 = .error e) ↔ f.Refused := by
  unfold Refused
  have hflows : (∃ e, f.flows.mapM (fun t => FlowStore.decode t f.dictionary) = .error e) ↔
      ∃ t ∈ f.flows, ∃ e, FlowStore.decode t f.dictionary = .error e := by
    cases f.flows with
    | none => exact iff_of_false nofun nofun
    | some t => simp [map_fails_iff]
  have hinstructions : (∃ e, ((f.instructions.zipIdx 1).mapM fun (i, n) => i.check n) = .error e) ↔
      ∃ i n, (i, n) ∈ f.instructions.zipIdx 1 ∧
        ∃ e, Operation.ofRecord ⟨n, i.opcode⟩ = .error e := by
    simp only [mapM_fails_iff, Prod.exists, DraftInstruction.check, map_fails_iff]
  rw [check_fst, bind_fails_iff, ← hflows, ← hinstructions]
  cases f.flows.mapM fun t => FlowStore.decode t f.dictionary with
  | error e => exact iff_of_true (.inl ⟨e, rfl⟩) (.inl ⟨e, rfl⟩)
  | ok flows =>
    simp [bind_fails_iff, pure, Except.pure]

def taken? : Option FunctionFacts :=
  f.check.1.toOption

/-- The name of the function and the reason, if it is set aside. -/
def setAside? : Option (String × Error) :=
  match f.check.1 with
  | .ok _ => none
  | .error e => some (f.name, e)

variable {f}

/-- A function goes to one of the two lists. -/
theorem isSome_taken? : f.taken?.isSome = !f.setAside?.isSome := by
  unfold taken? setAside?
  cases f.check.1 <;> rfl

theorem isSome_setAside?_iff : f.setAside?.isSome ↔ f.Refused := by
  rw [← check_refuses_iff]
  unfold setAside?
  cases f.check.1 with
  | ok facts => exact iff_of_false nofun nofun
  | error e => exact iff_of_true rfl ⟨e, rfl⟩

theorem name_of_setAside? {name : String} {e : Error} (h : (name, e) ∈ f.setAside?) :
    name = f.name := by
  unfold setAside? at h
  split at h
  · cases h
  · exact (Prod.mk.inj (Option.some.inj h)).1.symm

/-- Facts that say what was read of a function. -/
structure Yields (f : DraftFunction) (facts : FunctionFacts) : Prop where
  name : facts.name = f.name
  address : facts.address = f.address
  formals : facts.formals = f.formals
  dictionary : facts.dictionary = f.dictionary
  flows : (f.flows.mapM fun t => FlowStore.decode t f.dictionary) = .ok facts.flows
  instructions : ((f.instructions.zipIdx 1).mapM fun (i, n) => i.check n) = .ok facts.instructions

theorem yields_of_taken? {facts : FunctionFacts} (h : facts ∈ f.taken?) : f.Yields facts := by
  have hcheck : f.check.1 = .ok facts := by
    unfold taken? at h
    cases hcheck : f.check.1 <;> rw [hcheck] at h
    · cases h
    · exact congrArg _ (Option.some.inj h)
  rw [check_fst] at hcheck
  obtain ⟨flows, hflows, hcheck⟩ := bind_eq_ok.mp hcheck
  obtain ⟨instructions, hinstructions, hcheck⟩ := bind_eq_ok.mp hcheck
  obtain rfl := ok_inj.mp hcheck
  exact ⟨rfl, rfl, rfl, rfl, hflows, hinstructions⟩

end DraftFunction

namespace Draft

theorem foldl_note (notes : List LogRecord) (d : Draft) :
    notes.foldl note d = { d with log := (notes.foldl note d).log } := by
  induction notes generalizing d with
  | nil => rfl
  | cons r notes ih =>
    rw [List.foldl_cons, ih]
    rfl

/-- The function that is being read goes to one of the two lists. -/
theorem close_eq (d : Draft) : d.close =
    { d with
      functions := d.functions ++ d.current.toList.filterMap DraftFunction.taken?
      rejected := d.rejected ++ d.current.toList.filterMap DraftFunction.setAside?
      current := none
      log := d.close.log } := by
  obtain ⟨name, globals, strings, types, functions, rejected, current, log⟩ := d
  cases current with
  | none => simp [close]
  | some f =>
    simp only [close, DraftFunction.taken?, DraftFunction.setAside?, Option.toList_some,
      List.filterMap_cons, List.filterMap_nil]
    rw [foldl_note]
    cases f.check.1 with
    | ok facts => simp [Except.toOption]
    | error e => simp [note, Except.toOption]

end Draft

end FactFile

end FactLift
