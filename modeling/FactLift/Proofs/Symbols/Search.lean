import FactLift.Proofs.Symbols.AddressIndex
import FactLift.Proofs.Symbols.Sizes
import FactLift.Proofs.Symbols.Storage

/-! The variable that contains an address.

`g.Finds among a found` says what a search for an address is to find: the variable that starts
there, else of those whose bytes include it the one that starts first, else nothing. Variables
without a type, or whose type has no size, are passed over. The table finds exactly this among the
variables that are not hidden behind others at their own addresses, so among all of them if no two
have the same address (`Registered.containing?_exact`). Otherwise it can miss a variable whose bytes
include the address (`containing?_misses_hidden`). -/

namespace FactLift.Globals

open C

variable {g : Globals} {a start : UInt64} {v : Symbol}

/-- The bytes of a variable that starts before an address include it. Its distance from the start is
what counts, so the bytes may run past the end of the address space. -/
def Reaches (g : Globals) (v : Symbol) (start a : UInt64) : Prop :=
  v.address = some start ∧ start < a ∧
    ∃ t n, v.type = some t ∧ g.Measures t (some n) ∧ (a - start).toNat < n

/-- What a search among some variables is to find at an address, and how far into it. -/
inductive Finds (g : Globals) (among : Symbol → Prop) (a : UInt64) : Option (Symbol × Int64) → Prop
  | at_start {v : Symbol} (hv : among v) (ha : v.address = some a) : Finds g among a (some (v, 0))
  | inside {v : Symbol} {start : UInt64} (hnone : ∀ w, among w → w.address ≠ some a) (hv : among v)
      (hreaches : g.Reaches v start a)
      (hfirst : ∀ w start', among w → g.Reaches w start' a → start ≤ start') :
      Finds g among a (some (v, (a - start).toInt64))
  | nothing (hnone : ∀ w, among w → w.address ≠ some a)
      (hout : ∀ w start, among w → ¬ g.Reaches w start a) : Finds g among a none

/-- A variable is in the table. -/
def IsListed (g : Globals) (v : Symbol) : Prop :=
  g.named? v.name = some v

/-- A variable is in the table, and no other one hides it. -/
def IsVisible (g : Globals) (v : Symbol) : Prop :=
  g.IsListed v ∧ ¬ g.IsHidden v

/-- No two of some variables have the same address. -/
def Apart (among : Symbol → Prop) : Prop :=
  ∀ v w a, among v → among w → v.address = some a → w.address = some a → v = w

/-- The visible variables are those that are known at their addresses. -/
theorem Registered.at?_eq_some_iff (hg : g.Registered) :
    g.at? a = some v ↔ g.IsVisible v ∧ v.address = some a := by
  constructor
  · intro h
    obtain ⟨hnamed, haddress⟩ := hg.of_at? h
    refine ⟨⟨hnamed, ?_⟩, haddress⟩
    rintro ⟨start, hstart, hhidden⟩
    obtain rfl := Option.some.inj (haddress.symm.trans hstart)
    exact hhidden h
  · rintro ⟨⟨-, hvisible⟩, haddress⟩
    by_contra hat
    exact hvisible ⟨a, haddress, hat⟩

theorem Registered.apart_isVisible (hg : g.Registered) : Apart g.IsVisible := by
  intro v w a hv hw ha ha'
  have hat := hg.at?_eq_some_iff.mpr ⟨hv, ha⟩
  rw [hg.at?_eq_some_iff.mpr ⟨hw, ha'⟩] at hat
  exact (Option.some.inj hat).symm

/-- A variable is hidden only behind one with the same address. -/
theorem Registered.isVisible_eq_isListed (hg : g.Registered) (hapart : Apart g.IsListed) :
    g.IsVisible = g.IsListed := by
  funext v
  refine propext ⟨And.left, fun hv => ⟨hv, ?_⟩⟩
  rintro ⟨a, ha, hhidden⟩
  obtain ⟨w, hat⟩ := Option.isSome_iff_exists.mp (hg.at?_of_named? hv ha)
  obtain ⟨⟨hw, -⟩, ha'⟩ := hg.at?_eq_some_iff.mp hat
  exact hhidden (hat.trans (congrArg some (hapart w v a hw hv ha' ha)))

/-! ### The search comes to an end -/

theorem reaching_ok (hacyclic : g.Acyclic) (a start : UInt64) (name : String) :
    ∃ found, g.reaching a start name = .ok found := by
  unfold reaching
  split
  next s =>
    split
    next t =>
      rw [sizing_eq_ok hacyclic, ok_bind]
      split <;> exact ⟨_, rfl⟩
    next => exact ⟨_, rfl⟩
  next => exact ⟨_, rfl⟩

/-- In an acyclic table every search comes to an end. -/
theorem search_eq_ok (hacyclic : g.Acyclic) (a : UInt64) : g.search a = .ok (g.containing? a) := by
  suffices hends : ∃ found, g.search a = .ok found by
    obtain ⟨found, hfound⟩ := hends
    rw [hfound, containing?_of_search hfound]
  unfold search
  split
  next => exact ⟨_, rfl⟩
  next =>
    generalize g.below a = starts
    induction starts with
    | nil => exact ⟨_, rfl⟩
    | cons x rest ih =>
      obtain ⟨start, name⟩ := x
      obtain ⟨first, hfirst⟩ := reaching_ok hacyclic a start name
      rw [List.findSomeM?_cons]
      dsimp only
      rw [hfirst, ok_bind]
      cases first with
      | some first => exact ⟨_, rfl⟩
      | none => exact ih

/-! ### Existence and uniqueness -/

/-- The table offers those of its visible variables whose bytes reach. -/
theorem Registered.offers_iff (hg : g.Registered) (hacyclic : g.Acyclic) :
    g.Offers a start v ↔ g.IsVisible v ∧ g.Reaches v start a := by
  simp only [Offers, Reaches, hg.at?_eq_some_iff, measures_iff hacyclic, and_assoc]

/-- What is found is what is to be found among the visible variables. -/
theorem Registered.finds_containing? (hg : g.Registered) (hacyclic : g.Acyclic) (a : UInt64) :
    g.Finds g.IsVisible a (g.containing? a) := by
  cases hat : g.at? a with
  | some v =>
    obtain ⟨hvisible, haddress⟩ := hg.at?_eq_some_iff.mp hat
    rw [containing?_of_at? hat]
    exact .at_start hvisible haddress
  | none =>
    have hnone (w : Symbol) (hw : g.IsVisible w) : w.address ≠ some a := by
      intro haddress
      rw [hg.at?_eq_some_iff.mpr ⟨hw, haddress⟩] at hat
      cases hat
    cases hfound : g.containing? a with
    | none =>
      refine .nothing hnone fun w start hw hreaches => ?_
      obtain ⟨hknown, hlt, t, n, ht, hn, hinside⟩ :=
        (hg.offers_iff hacyclic).mpr ⟨hw, hreaches⟩
      exact Nat.not_lt.mpr (size_le_of_containing? hfound hknown hlt ht hn) hinside
    | some found =>
      obtain ⟨v, distance⟩ := found
      obtain ⟨start, hoffers, rfl, hleast⟩ := containing?_first hfound hat
      obtain ⟨hvisible, hreaches⟩ := (hg.offers_iff hacyclic).mp hoffers
      exact .inside hnone hvisible hreaches fun w start' hw hreaches' =>
        hleast start' w ((hg.offers_iff hacyclic).mpr ⟨hw, hreaches'⟩)

/-- At most one thing is to be found. -/
theorem Finds.unique {among : Symbol → Prop} {found found' : Option (Symbol × Int64)}
    (hapart : Apart among) (h : g.Finds among a found) (h' : g.Finds among a found') :
    found = found' := by
  cases h with
  | at_start hv ha =>
    cases h' with
    | at_start hw ha' => rw [hapart _ _ a hv hw ha ha']
    | inside hnone => exact absurd ha (hnone _ hv)
    | nothing hnone => exact absurd ha (hnone _ hv)
  | inside hnone hv hreaches hfirst =>
    cases h' with
    | at_start hw ha' => exact absurd ha' (hnone _ hw)
    | inside _ hw hreaches' hfirst' =>
      -- each starts first, so both start at the same address
      obtain rfl := UInt64.le_antisymm (hfirst _ _ hw hreaches') (hfirst' _ _ hv hreaches)
      rw [hapart _ _ _ hv hw hreaches.1 hreaches'.1]
    | nothing _ hout => exact absurd hreaches (hout _ _ hv)
  | nothing hnone hout =>
    cases h' with
    | at_start hw ha' => exact absurd ha' (hnone _ hw)
    | inside _ hw hreaches' => exact absurd hreaches' (hout _ _ hw)
    | nothing => rfl

/-- **The search is exact** among the visible variables: it comes to an end with what is to be found
among them, and with nothing else. If no two variables have the same address, it is exact among all
that are in the table. -/
theorem Registered.containing?_exact (hg : g.Registered) (hacyclic : g.Acyclic) (a : UInt64) :
    g.search a = .ok (g.containing? a) ∧
      (∀ found, g.Finds g.IsVisible a found ↔ found = g.containing? a) ∧
      (Apart g.IsListed → ∀ found, g.Finds g.IsListed a found ↔ found = g.containing? a) := by
  have hfound := hg.finds_containing? hacyclic a
  have hexact (found : Option (Symbol × Int64)) :
      g.Finds g.IsVisible a found ↔ found = g.containing? a :=
    ⟨fun h => h.unique hg.apart_isVisible hfound, fun h => h ▸ hfound⟩
  refine ⟨search_eq_ok hacyclic a, hexact, fun hapart => ?_⟩
  rw [← hg.isVisible_eq_isListed hapart]
  exact hexact

/-! ### Variables on top of each other -/

/-- Asking for variables defines no type. -/
theorem sameTypes_addAll (g : Globals) (calls : List Symbol) : g.SameTypes (g.addAll calls) :=
  List.foldlRecOn calls _ ⟨rfl, rfl⟩ fun _ hg s _ => hg.trans (sameTypes_addVariable _ s)

theorem acyclic_addAll (calls : List Symbol) : (addAll {} calls).Acyclic := by
  have hempty : Acyclic {} := by
    refine acyclic_of_rank (fun _ => 0) ?_
    rintro (key | name) q ⟨t, ht, -⟩ <;> simp [definition, composite?] at ht
  exact (sameTypes_addAll {} calls).acyclic hempty

theorem mem_of_named?_addAll (calls : List Symbol) {name : String} {v : Symbol}
    (hv : (g.addAll calls).named? name = some v) : g.named? name = some v ∨ v ∈ calls := by
  induction calls generalizing g with
  | nil => exact .inl hv
  | cons s rest ih =>
    rcases ih hv with hbefore | hmem
    · rw [named?_addVariable, addVariable_fst] at hbefore
      split at hbefore
      next heq =>
        rw [heq] at hbefore
        cases hs : g.named? name with
        | some s' =>
          rw [hs] at hbefore
          exact .inl hbefore
        | none =>
          rw [hs] at hbefore
          obtain rfl : s = v := Option.some.inj hbefore
          exact .inr List.mem_cons_self
      next => exact .inl hbefore
    · exact .inr (List.mem_cons_of_mem s hmem)

/-- A buffer of 256 bytes at 0x1000. -/
def buffer : Symbol :=
  { name := "buffer", address := some 0x1000
    type := some (.array (.int .char) (some (.int 256 .int))) }

/-- An integer in the buffer. -/
def header : Symbol :=
  { name := "header", address := some 0x1010, type := some (.int .int) }

/-- Both contain the address in the middle of the integer, and it is found in the buffer, which
starts first. -/
theorem containing?_exact_in_buffer :
    let g := addAll {} [buffer, header]
    g.Registered ∧ g.Acyclic ∧ Apart g.IsListed ∧ g.Reaches header 0x1010 0x1012 ∧
      ∀ found, g.Finds g.IsListed 0x1012 found ↔ found = some (buffer, 18) := by
  intro g
  have hregistered : g.Registered := registered_empty.addAll _
  have hacyclic : g.Acyclic := acyclic_addAll _
  have hapart : Apart g.IsListed := by
    intro v w a hv hw ha ha'
    have hmem {u : Symbol} (hu : g.IsListed u) : u = buffer ∨ u = header := by
      simpa [named?] using mem_of_named?_addAll _ hu
    rcases hmem hv with rfl | rfl <;> rcases hmem hw with rfl | rfl
    · rfl
    · exact absurd (ha.trans ha'.symm) (by decide)
    · exact absurd (ha.trans ha'.symm) (by decide)
    · rfl
  have hsize : g.size? (.int .int) = some 4 := by decide
  have hfound : g.containing? 0x1012 = some (buffer, 18) := rfl
  refine ⟨hregistered, hacyclic, hapart, ⟨rfl, by decide, _, 4, rfl, ?_, by decide⟩, ?_⟩
  · exact (measures_iff hacyclic).mpr hsize
  · rw [← hfound]
    exact (hregistered.containing?_exact hacyclic 0x1012).2.2 hapart

/-- Four integers at 0x1000. -/
def block : Symbol :=
  { name := "block", address := some 0x1000
    type := some (.array (.int .int) (some (.int 4 .int))) }

/-- An integer at the same address. -/
def counter : Symbol :=
  { name := "counter", address := some 0x1000, type := some (.int .int) }

/-- **The integer hides the block**, as it is registered last. The address is twelve bytes into the
block, but nothing is found there. -/
theorem containing?_misses_hidden :
    let g := addAll {} [block, counter]
    g.Registered ∧ g.Acyclic ∧ g.IsListed block ∧ g.Reaches block 0x1000 0x100c ∧
      g.containing? 0x100c = none ∧ ¬ g.Finds g.IsListed 0x100c (g.containing? 0x100c) := by
  intro g
  have hacyclic : g.Acyclic := acyclic_addAll _
  have hlisted : g.IsListed block := rfl
  have hsize : g.size? (.array (.int .int) (some (.int 4 .int))) = some 16 := by decide
  have hreaches : g.Reaches block 0x1000 0x100c :=
    ⟨rfl, by decide, _, 16, rfl, (measures_iff hacyclic).mpr hsize, by decide⟩
  have hnothing : g.containing? 0x100c = none := rfl
  refine ⟨registered_empty.addAll _, hacyclic, hlisted, hreaches, hnothing, fun h => ?_⟩
  rw [hnothing] at h
  cases h with
  | nothing _ hout => exact hout block 0x1000 hlisted hreaches

end FactLift.Globals
