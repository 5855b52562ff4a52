import FactLift.Proofs.Symbols.MadeUp

/-! Finding variables by their addresses.

A name keeps the variable that was registered first, but an address is left to the one that was
registered last. So a variable is found at its address once it is registered, and what is found
there stays for exactly as long as no other variable is registered at the address
(`Globals.at?_addAll`). -/

namespace FactLift

open C

namespace Globals

/-- The table after variables were asked for, one after the other. -/
def addAll (g : Globals) (calls : List Symbol) : Globals :=
  calls.foldl (fun g s => (g.addVariable s).2) g

/-- Asking for a variable registers it at an address: it has the address, and its name is new. -/
structure Registers (g : Globals) (s : Symbol) (a : UInt64) : Prop where
  address : s.address = some a
  new : g.named? s.name = none

variable {g : Globals}

/-! ### The step -/

theorem Registered.at?_of_registers (h : g.Registered) {s : Symbol} {a : UInt64}
    (hs : g.Registers s a) : (g.addVariable s).2.at? a = some s := by
  rw [at?_addVariable h hs.new, if_pos hs.address]

theorem Registered.at?_of_not_registers (h : g.Registered) {s : Symbol} {a : UInt64}
    (hs : ¬ g.Registers s a) : (g.addVariable s).2.at? a = g.at? a := by
  cases hnamed : g.named? s.name with
  | some s' => rw [addVariable_of_some hnamed]
  | none => rw [at?_addVariable h hnamed, if_neg fun ha => hs ⟨ha, hnamed⟩]

/-! ### The run -/

theorem addAll_append (g : Globals) (calls calls' : List Symbol) :
    g.addAll (calls ++ calls') = (g.addAll calls).addAll calls' :=
  List.foldl_append

theorem Registered.addAll (h : g.Registered) (calls : List Symbol) : (g.addAll calls).Registered :=
  List.foldlRecOn calls _ h fun _ hg s _ => hg.addVariable s

theorem named?_of_addAll (calls : List Symbol) {name : String} {s : Symbol}
    (h : g.named? name = some s) : (g.addAll calls).named? name = some s := by
  induction calls generalizing g with
  | nil => exact h
  | cons v rest ih => exact ih (named?_of_addVariable v h)

/-- A name is in the table if it was there before or a variable of that name was asked for. -/
theorem named?_addAll_eq_none (g : Globals) (calls : List Symbol) (name : String) :
    (g.addAll calls).named? name = none ↔ g.named? name = none ∧ name ∉ calls.map (·.name) := by
  induction calls generalizing g with
  | nil => simp [addAll]
  | cons s rest ih =>
    refine (ih _).trans ?_
    rw [named?_addVariable]
    by_cases hname : s.name = name
    · simp [hname]
    · simp [hname, Ne.symm hname]

/-- What is found at an address is what was there, if none of the calls registers a variable there,
or else one that they register. -/
theorem Registered.at?_addAll_cases (h : g.Registered) (calls : List Symbol) (a : UInt64) :
    ((∀ b s c, calls = b ++ s :: c → ¬ (g.addAll b).Registers s a) ∧
        (g.addAll calls).at? a = g.at? a) ∨
      ∃ b s c, calls = b ++ s :: c ∧ (g.addAll b).Registers s a ∧
        (g.addAll calls).at? a = some s := by
  induction calls generalizing g with
  | nil => exact .inl ⟨by simp, rfl⟩
  | cons s rest ih =>
    rcases ih (h.addVariable s) with ⟨hnone, hsame⟩ | ⟨b, s', c, rfl, hs', hfound⟩
    · by_cases hs : g.Registers s a
      · exact .inr ⟨[], s, rest, rfl, hs, hsame.trans (h.at?_of_registers hs)⟩
      · refine .inl ⟨fun b s' c hsplit => ?_, hsame.trans (h.at?_of_not_registers hs)⟩
        cases b with
        | nil =>
          obtain ⟨rfl, -⟩ := List.cons.inj hsplit
          exact hs
        | cons t b =>
          obtain ⟨rfl, hrest⟩ := List.cons.inj hsplit
          exact hnone b s' c hrest
    · exact .inr ⟨s :: b, s', c, rfl, hs', hfound⟩

/-- What is found at an address stays there exactly if none of the calls registers a variable
there. -/
theorem Registered.at?_addAll_eq_iff (h : g.Registered) (calls : List Symbol) (a : UInt64) :
    (g.addAll calls).at? a = g.at? a ↔
      ∀ b s c, calls = b ++ s :: c → ¬ (g.addAll b).Registers s a := by
  rcases h.at?_addAll_cases calls a with ⟨hnone, hsame⟩ | ⟨b, s, c, hsplit, hs, hfound⟩
  · exact ⟨fun _ => hnone, fun _ => hsame⟩
  · refine ⟨fun hsame => ?_, fun hnone => absurd hs (hnone b s c hsplit)⟩
    -- a variable that was found before has a name that is not new
    have hbefore : g.at? a = some s := hsame.symm.trans hfound
    have hkept := named?_of_addAll b (h.of_at? hbefore).1
    rw [hs.new] at hkept
    cases hkept

/-- **Addresses.** A variable that is registered with an address is found there at once, and what is
found at an address after some calls is found there after more of them exactly if none of these
registers a variable at the address. -/
theorem at?_addAll (before after : List Symbol) (a : UInt64) :
    (∀ s : Symbol, s.address = some a → s.name ∉ before.map (·.name) →
        (addAll {} (before ++ [s])).at? a = some s) ∧
      ((addAll {} (before ++ after)).at? a = (addAll {} before).at? a ↔
        ∀ b s c, after = b ++ s :: c → s.address = some a →
          s.name ∈ (before ++ b).map (·.name)) := by
  have hregisters (calls : List Symbol) (s : Symbol) :
      (addAll {} calls).Registers s a ↔ s.address = some a ∧ s.name ∉ calls.map (·.name) := by
    refine ⟨fun h => ⟨h.address, ((named?_addAll_eq_none {} calls s.name).mp h.new).2⟩, fun h => ?_⟩
    exact ⟨h.1, (named?_addAll_eq_none {} calls s.name).mpr ⟨rfl, h.2⟩⟩
  have hbefore : (addAll {} before).Registered := registered_empty.addAll before
  refine ⟨fun s ha hnew => ?_, ?_⟩
  · rw [addAll_append]
    exact hbefore.at?_of_registers ((hregisters before s).mpr ⟨ha, hnew⟩)
  · rw [addAll_append, hbefore.at?_addAll_eq_iff]
    refine forall₄_congr fun b s c _ => ?_
    rw [← addAll_append, hregisters, not_and_not_right]

/-- Two variables at one address: the first is found, but not after the second is registered. -/
theorem at?_addAll_of_shared_address :
    let first : Symbol := { name := "a", address := some 0x1000 }
    let second : Symbol := { name := "b", address := some 0x1000 }
    (addAll {} [first]).at? 0x1000 = some first ∧
      (addAll {} [first, second]).at? 0x1000 ≠ (addAll {} [first]).at? 0x1000 := by
  intro first second
  obtain ⟨hfound, hkept⟩ := at?_addAll [first] [second] 0x1000
  obtain ⟨hfirst, -⟩ := at?_addAll [] [] 0x1000
  refine ⟨hfirst first rfl List.not_mem_nil, fun hsame => ?_⟩
  have hname := hkept.mp hsame [] second [] rfl rfl
  exact absurd hname (by decide)

/-- **A variable is lost.** The address of the first variable leads to the second one once that is
registered, though the first is still there. -/
theorem at?_replaced :
    let first : Symbol := { name := "a", address := some 0x1000 }
    let second : Symbol := { name := "b", address := some 0x1000 }
    (addAll {} [first]).at? 0x1000 = some first ∧
      (addAll {} [first, second]).at? 0x1000 = some second ∧
      (addAll {} [first, second]).named? "a" = some first ∧ first ≠ second :=
  ⟨rfl, rfl, rfl, fun h => absurd (congrArg Symbol.name h) (by decide)⟩

end Globals

end FactLift
