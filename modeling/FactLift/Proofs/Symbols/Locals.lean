import FactLift.Symbols.Locals

/-! Local symbols that are bare names.

A function that has no parameters yet, and no definitions of registers, has only variables without
types, each under its own name. `register_bare` says that asking for a register keeps it so and
gives the variable with the name of the register. -/

namespace FactLift.Locals

open C

/-- No name and no register has a variable yet, nor has a definition of a register. -/
structure IsEmpty (l : Locals) : Prop where
  symbols : l.symbols.isEmpty = true
  registers : l.registers.isEmpty = true
  ssa : l.ssa = #[]

/-- The number stands for a variable of that name, without a type. -/
def IsBare (vars : Array Symbol) (name : String) (v : VarId) : Prop :=
  ∃ s, vars[v]? = some s ∧ s.name = name ∧ s.type = none

/-- All names in a table stand for variables that are called so and have no type. -/
def TableIsBare (vars : Array Symbol) (table : Std.TreeMap String VarId) : Prop :=
  ∀ name v, table[name]? = some v → IsBare vars name v

/-- Names and registers stand for variables that are called so and have no type, and no register is
defined. -/
structure AllBare (l : Locals) : Prop where
  symbols : TableIsBare l.vars l.symbols
  registers : TableIsBare l.vars l.registers
  ssa : l.ssa = #[]

variable {l : Locals} {vars : Array Symbol} {table : Std.TreeMap String VarId} {name : String}
  {v : VarId}

theorem IsBare.get (h : IsBare l.vars name v) : (l.get v).name = name ∧ (l.get v).type = none := by
  obtain ⟨s, hs, hname, htype⟩ := h
  rw [Locals.get, Array.getD_eq_getD_getElem?, hs]
  exact ⟨hname, htype⟩

/-- A variable stays what it is when another is made. -/
theorem IsBare.push (h : IsBare vars name v) (s : Symbol) : IsBare (vars.push s) name v := by
  obtain ⟨t, ht, hbare⟩ := h
  obtain ⟨hbound, -⟩ := Array.getElem?_eq_some_iff.mp ht
  refine ⟨t, ?_, hbare⟩
  rw [Array.getElem?_push, if_neg (Nat.ne_of_lt hbound), ht]

theorem isBare_push_size {s : Symbol} (hs : s.type = none) :
    IsBare (vars.push s) s.name vars.size :=
  ⟨s, Array.getElem?_push_size, rfl, hs⟩

theorem TableIsBare.push (h : TableIsBare vars table) (s : Symbol) :
    TableIsBare (vars.push s) table :=
  fun name v hv => (h name v hv).push s

theorem TableIsBare.insert (h : TableIsBare vars table) (hnew : IsBare vars name v) :
    TableIsBare vars (table.insert name v) := by
  intro name' v' hv
  rw [Std.TreeMap.getElem?_insert] at hv
  split at hv
  · rename_i heq
    rw [← Std.LawfulEqOrd.compare_eq_iff_eq.mp heq, ← Option.some.inj hv]
    exact hnew
  · exact h name' v' hv

theorem tableIsBare_of_isEmpty (h : table.isEmpty = true) : TableIsBare vars table := by
  intro name v hv
  rw [Std.TreeMap.getElem?_of_isEmpty h] at hv
  contradiction

theorem IsEmpty.allBare (h : l.IsEmpty) : l.AllBare :=
  ⟨tableIsBare_of_isEmpty h.symbols, tableIsBare_of_isEmpty h.registers, h.ssa⟩

/-- The variable with a name, made without a type if there is none. -/
theorem addSymbol_bare (h : l.AllBare) {s : Symbol} (hs : s.type = none) :
    (l.addSymbol s).2.AllBare ∧ IsBare (l.addSymbol s).2.vars s.name (l.addSymbol s).1 := by
  unfold addSymbol
  split
  · rename_i v hv
    exact ⟨h, h.symbols s.name v hv⟩
  · have hnew : IsBare (l.vars.push s) s.name l.vars.size := isBare_push_size hs
    exact ⟨⟨(h.symbols.push s).insert hnew, h.registers.push s, h.ssa⟩, hnew⟩

/-- The variable of a register has its name. -/
theorem register_bare (h : l.AllBare) (name : String) :
    (l.register name).2.AllBare ∧ IsBare (l.register name).2.vars name (l.register name).1 := by
  unfold register
  split
  · rename_i v hv
    exact ⟨h, h.registers name v hv⟩
  · obtain ⟨hall, hnew⟩ : _ ∧ IsBare _ name _ :=
      addSymbol_bare h (s := { name, description := some "register" }) rfl
    exact ⟨⟨hall.symbols, hall.registers.insert hnew, hall.ssa⟩, hnew⟩

end FactLift.Locals
