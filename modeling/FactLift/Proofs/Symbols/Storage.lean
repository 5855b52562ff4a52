import FactLift.Proofs.Symbols.ByteExact
import FactLift.Proofs.Symbols.Lookups
import FactLift.Proofs.Word

/-! The storage of global variables.

A variable with an address and a type of known size takes up that many bytes from there on
(`Globals.Stores`). At each address the table knows one variable, the one that was registered last,
and a variable registered there before is hidden behind it (`Globals.IsHidden`). So the search for
the variable that contains an address comes back empty when none starts there and all that store it
are hidden (`Registered.containing?_eq_none_iff`). -/

namespace FactLift.Globals

open C

variable {g : Globals} {a start : UInt64} {v : Symbol}

/-- The bytes of a variable include an address. They are not counted around the end of the address
space. -/
def Stores (g : Globals) (v : Symbol) (a : UInt64) : Prop :=
  ∃ start t n, v.address = some start ∧ v.type = some t ∧ g.size? t = some n ∧ start ≤ a ∧
    a.toNat < start.toNat + n

/-- Another variable is known at the address of a variable. -/
def IsHidden (g : Globals) (v : Symbol) : Prop :=
  ∃ start, v.address = some start ∧ g.at? start ≠ some v

/-! ### Sizes -/

/-- The types of all variables have sizes that fit into words, and so has what is inside them. -/
def VariablesFit (g : Globals) : Prop :=
  ∀ name v t, g.named? name = some v → v.type = some t → g.SizesFit t

namespace SameTypes

variable {g' : Globals} (h : g.SameTypes g')
include h

theorem distinctFields (hg : g.DistinctFields) : g'.DistinctFields := by
  intro key c hc
  rw [← h.composite?] at hc
  exact hg key c hc

theorem forwardFields (hg : g.ForwardFields) : g'.ForwardFields := by
  intro key c hc
  rw [← h.composite?] at hc
  exact hg key c hc

theorem inside {t host : Ty} (ht : g'.Inside t host) : g.Inside t host := by
  induction ht with
  | self => exact .self
  | named hu _ ih =>
    obtain ⟨n, rfl⟩ := hu
    exact .named ⟨n, h.resolveWithin n _⟩ ih
  | element _ ih => exact .element ih
  | field hc hf _ ih =>
    rw [← h.composite?] at hc
    exact .field hc hf ih

theorem sizesFit {host : Ty} (hg : g.SizesFit host) : g'.SizesFit host := by
  intro t n ht hn
  rw [← h.size?] at hn
  exact hg t n (h.inside ht) hn

end SameTypes

theorem VariablesFit.addVariable (h : g.VariablesFit) {s : Symbol}
    (hs : ∀ t, s.type = some t → g.SizesFit t) : (g.addVariable s).2.VariablesFit := by
  intro name v t hv ht
  apply (g.sameTypes_addVariable s).sizesFit
  rw [named?_addVariable] at hv
  split at hv
  · cases hnamed : g.named? s.name with
    | some s' =>
      rw [addVariable_of_some hnamed] at hv
      exact h s.name v t (hnamed.trans hv) ht
    | none =>
      rw [addVariable_of_none hnamed] at hv
      obtain rfl : s = v := Option.some.inj hv
      exact hs t ht
  · exact h name v t hv ht

/-! ### Distances -/

theorem toNat_distance (h : start ≤ a) : (start.toNat : Int) + (a - start).toNat = a.toNat := by
  have hle := UInt64.le_iff_toNat_le.mp h
  have hsub := UInt64.toNat_sub_of_le a start h
  omega

/-- A distance that fits into a signed word is the same number there. -/
theorem toInt_distance (h : start ≤ a) (hfits : (a - start).toNat < 2 ^ 63) :
    (start.toNat : Int) + (a - start).toInt64.toInt = a.toNat := by
  rw [Word.toInt_toInt64, Int.bmod_eq_of_le (by omega) (by omega)]
  exact toNat_distance h

/-! ### The search -/

/-- Where nothing is found, the bytes of no known variable reach. -/
theorem size_le_of_containing? {t : Ty} {n : Nat} (h : g.containing? a = none)
    (hv : g.at? start = some v) (hlt : start < a) (ht : v.type = some t) (hn : g.size? t = some n) :
    n ≤ (a - start).toNat := by
  obtain ⟨name, hname, hnamed⟩ := Option.bind_eq_some_iff.mp hv
  unfold containing? at h
  split at h
  next => cases h
  next =>
    have hmem := Std.TreeMap.mem_toList_iff_getElem?_eq_some.mpr hname
    have hnone := List.findSome?_eq_none_iff.mp h (start, name)
      (List.mem_filter.mpr ⟨hmem, decide_eq_true hlt⟩)
    simpa [hnamed, ht, hn] using hnone

/-- **Nothing is found** at an address where no variable starts if all that store it are hidden, and
only then. -/
theorem Registered.containing?_eq_none_iff (hg : g.Registered) :
    g.containing? a = none ↔ ∀ name v, g.named? name = some v →
      v.address ≠ some a ∧ (g.Stores v a → g.IsHidden v) := by
  constructor
  · intro h name v hv
    have hstart : v.address ≠ some a := by
      intro ha
      have hfound := hg.at?_of_named? hv ha
      rw [at?_eq_none h] at hfound
      cases hfound
    refine ⟨hstart, ?_⟩
    rintro ⟨start, t, n, haddress, ht, hn, hle, hlt⟩
    refine ⟨start, haddress, fun hat => ?_⟩
    have hne : start ≠ a := fun heq => hstart (heq ▸ haddress)
    have hend := size_le_of_containing? h hat (UInt64.lt_of_le_of_ne hle hne) ht hn
    have hdistance := toNat_distance hle
    omega
  · intro h
    cases hfound : g.containing? a with
    | none => rfl
    | some found =>
      obtain ⟨v, distance⟩ := found
      exfalso
      obtain ⟨hat, -⟩ | ⟨start, t, n, hat, hlt, ht, hn, hreaches, -⟩ := containing?_cases hfound
      · obtain ⟨hnamed, haddress⟩ := hg.of_at? hat
        exact (h _ v hnamed).1 haddress
      · obtain ⟨hnamed, haddress⟩ := hg.of_at? hat
        have hle := UInt64.le_of_lt hlt
        have hdistance := toNat_distance hle
        obtain ⟨start', haddress', hhidden⟩ :=
          (h _ v hnamed).2 ⟨start, t, n, haddress, ht, hn, hle, by omega⟩
        obtain rfl := Option.some.inj (haddress.symm.trans haddress')
        exact hhidden hat

end FactLift.Globals
