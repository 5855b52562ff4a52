import FactLift.FactFile.Load
import FactLift.Proofs.Except
import FactLift.Proofs.Symbols.Registered

/-! The global symbols of a loaded program.

A fact file only adds to global symbols, so those of a program are in order when it is loaded
(`load_registered`). -/

namespace FactLift

open C

namespace FactFile

variable {d d' : Draft}

theorem Draft.globals_close (d : Draft) : d.close.globals = d.globals := by
  have hnotes (notes : List LogRecord) (d : Draft) : (notes.foldl note d).globals = d.globals :=
    List.foldlRecOn notes note (motive := fun d' => d'.globals = d.globals) rfl
      fun d' h r _ => show (d'.note r).globals = d.globals from h
  unfold close
  split
  · rfl
  · dsimp only
    split
    · exact hnotes _ _
    · exact hnotes _ _

theorem Draft.addComposite_registered (hd : d.globals.Registered) {line : Nat} {c : Composite}
    (h : d.addComposite line c = .ok d') : d'.globals.Registered := by
  unfold addComposite at h
  split at h
  · cases h
  next g hg =>
    have hregistered := hd.addComposite hg
    split at h <;> obtain rfl := ok_inj.mp h <;> exact hregistered

/-- **The step.** -/
theorem readSection_registered {s : Section} (hd : d.globals.Registered)
    (h : readSection d s = .ok d') : d'.globals.Registered := by
  unfold readSection at h
  dsimp only at h
  split at h
  · obtain rfl := ok_inj.mp h
    exact hd
  · obtain rfl := ok_inj.mp h
    exact hd
  · obtain ⟨types, -, h⟩ := bind_eq_ok.mp h
    obtain rfl := ok_inj.mp h
    exact hd
  · obtain ⟨definitions, -, h⟩ := bind_eq_ok.mp h
    obtain rfl := ok_inj.mp h
    exact List.foldlRecOn definitions _ hd fun _ hg x _ => hg.addTypedef x.1 x.2
  · obtain ⟨isUnion, -, h⟩ := bind_eq_ok.mp h
    obtain ⟨key, -, h⟩ := bind_eq_ok.mp h
    obtain ⟨fields, -, h⟩ := bind_eq_ok.mp h
    exact Draft.addComposite_registered hd h
  · obtain ⟨symbols, -, h⟩ := bind_eq_ok.mp h
    obtain rfl := ok_inj.mp h
    exact List.foldlRecOn symbols _ hd fun _ hg s _ => hg.addVariable s
  · obtain ⟨address, -, h⟩ := bind_eq_ok.mp h
    obtain ⟨formals, -, h⟩ := bind_eq_ok.mp h
    obtain rfl := ok_inj.mp h
    exact hd
  · obtain ⟨f, -, h⟩ := bind_eq_ok.mp h
    obtain ⟨f', -, h⟩ := bind_eq_ok.mp h
    obtain rfl := ok_inj.mp h
    exact hd
  · obtain ⟨f, -, h⟩ := bind_eq_ok.mp h
    obtain ⟨instructions, -, h⟩ := bind_eq_ok.mp h
    obtain rfl := ok_inj.mp h
    exact hd
  · cases h

/-- **The run.** -/
theorem readSections_registered {sections : List Section} (hd : d.globals.Registered) :
    (readSections sections d).2.globals.Registered := by
  induction sections generalizing d with
  | nil => exact hd
  | cons s rest ih =>
    unfold readSections
    have hclosed : (if s.startsFunction then d.close else d).globals.Registered := by
      split
      · rwa [Draft.globals_close]
      · exact hd
    dsimp only
    split
    next d' h => exact ih (readSection_registered hclosed h)
    next => exact hclosed

/-- The global symbols of a loaded program are in order. -/
theorem load_registered {text : String} {p : ProgramFacts} (h : (load text).1 = .ok p) :
    p.globals.Registered := by
  have hread : (readSections (sections text) {}).2.globals.Registered :=
    readSections_registered Globals.registered_empty
  unfold load at h
  split at h
  · cases h
  next d hd =>
    obtain rfl := ok_inj.mp h
    rw [hd] at hread
    show d.close.globals.Registered
    rwa [Draft.globals_close]

end FactFile

end FactLift
