import FactLift.Proofs.Except
import FactLift.Proofs.Symbols.Names
import FactLift.Proofs.Symbols.Registered
import Mathlib.Logic.Relation

/-! What the global symbols answer.

A `Lookup` is a question about the global symbols that lifting can ask. Asking may make a variable
up (`Globals.Made`). Two tables that answer questions alike go on doing so when both are asked one
of them (`Alike.accessed`, `Alike.located`, `Alike.called`), even if only one of them has to make a
variable up. -/

namespace FactLift

open C

/-- A question about the global symbols. -/
inductive Lookup
  /-- Which variable contains an address that is used as a number. -/
  | constant (a : UInt64)
  /-- Which variable an access to an address goes to. -/
  | access (a : UInt64)
  /-- Which variable a function that is called by its name is. -/
  | function (name : String)
deriving DecidableEq, Repr

/-- The variable that is made up for a question if there is none. Nothing is made up for an address
that is used as a number. -/
def Lookup.madeUp? : Lookup → Option Symbol
  | .constant _ => none
  | .access a => some (Globals.unknownVariable a)
  | .function name => some (Globals.unknownFunction name)

namespace Globals

variable {g g' : Globals}

/-! ### Questions and answers -/

/-- The variable that an access to an address goes to and how far into it, made up if there is
none. -/
def accessed (g : Globals) (a : UInt64) : (Symbol × Int64) × Globals :=
  match g.containing? a with
  | some found => (found, g)
  | none => (((g.addVariable (unknownVariable a)).1, 0), (g.addVariable (unknownVariable a)).2)

/-- The variable at the very address, made up if there is none. -/
def located (g : Globals) (a : UInt64) : Symbol × Globals :=
  match g.at? a with
  | some s => (s, g)
  | none => g.addVariable (unknownVariable a)

/-- The function with a name, made up if there is none. -/
def called (g : Globals) (name : String) : Symbol × Globals :=
  g.addVariable (unknownFunction name)

/-- Two tables give the same answer. -/
def AnswersAlike (g g' : Globals) : Lookup → Prop
  | .constant a => g.containing? a = g'.containing? a
  | .access a => (g.accessed a).1 = (g'.accessed a).1 ∧ (g.located a).1 = (g'.located a).1
  | .function name => (g.called name).1 = (g'.called name).1

/-- Two tables that are in order, with the same types and the same answers to questions. -/
structure Alike (qs : List Lookup) (g g' : Globals) : Prop extends g.SameTypes g' where
  left : g.Registered
  right : g'.Registered
  answers : ∀ q ∈ qs, g.AnswersAlike g' q

theorem addVariable_fst (g : Globals) (s : Symbol) :
    (g.addVariable s).1 = (g.named? s.name).getD s := by
  unfold addVariable
  split
  next hs => rw [hs]; rfl
  next hs => rw [hs]; rfl

/-- Answers come from what is known about the address and the name. -/
theorem accessed_congr {a : UInt64} (hcontaining : g.containing? a = g'.containing? a)
    (hnamed : g.named? (unknownVariable a).name = g'.named? (unknownVariable a).name) :
    (g.accessed a).1 = (g'.accessed a).1 := by
  unfold accessed
  rw [hcontaining]
  split
  · rfl
  · rw [addVariable_fst, addVariable_fst, hnamed]

theorem located_congr {a : UInt64} (hat : g.at? a = g'.at? a)
    (hnamed : g.named? (unknownVariable a).name = g'.named? (unknownVariable a).name) :
    (g.located a).1 = (g'.located a).1 := by
  unfold located
  rw [hat]
  split
  · rfl
  · rw [addVariable_fst, addVariable_fst, hnamed]

theorem called_congr {name : String} (h : g.named? name = g'.named? name) :
    (g.called name).1 = (g'.called name).1 := by
  rw [called, called, addVariable_fst, addVariable_fst]
  show (g.named? name).getD _ = (g'.named? name).getD _
  rw [h]

/-! ### The search for an address -/

/-- A search through a sorted list finds the least entry that gives something. -/
theorem findSome?_least {α β : Type} {r : α → α → Prop} {f : α → Option β} {l : List α} {b : β}
    (hsorted : l.Pairwise r) (h : l.findSome? f = some b) :
    ∃ x ∈ l, f x = some b ∧ ∀ y ∈ l, (f y).isSome → x = y ∨ r x y := by
  obtain ⟨before, x, after, rfl, hx, hbefore⟩ := List.findSome?_eq_some_iff.mp h
  refine ⟨x, List.mem_append_right _ List.mem_cons_self, hx, fun y hy hsome => ?_⟩
  rcases List.mem_append.mp hy with hpassed | hrest
  · rw [hbefore y hpassed] at hsome
    cases hsome
  · rcases List.mem_cons.mp hrest with rfl | hlater
    · exact .inl rfl
    · exact .inr (List.rel_of_pairwise_cons (List.pairwise_append.mp hsorted).2.1 hlater)

/-- What the table tells about a variable that starts before an address: it is known where it
starts, and its bytes include the address. -/
def Offers (g : Globals) (a start : UInt64) (v : Symbol) : Prop :=
  g.at? start = some v ∧ start < a ∧
    ∃ t n, v.type = some t ∧ g.size? t = some n ∧ (a - start).toNat < n

theorem reaching_eq_ok {a start : UInt64} {name : String} {found : Option (Symbol × Int64)}
    (h : g.reaching a start name = .ok found) :
    (do
      let s ← g.named? name
      let size ← g.size? (← s.type)
      if (a - start).toNat < size then some (s, (a - start).toInt64) else none) = found := by
  unfold reaching at h
  cases hs : g.named? name with
  | none =>
    rw [hs] at h
    exact Except.ok.inj h
  | some s =>
    rw [hs] at h
    dsimp only at h
    cases ht : s.type with
    | none =>
      rw [ht] at h
      simpa [ht] using Except.ok.inj h
    | some t =>
      rw [ht] at h
      obtain ⟨size, hsize, h⟩ := bind_eq_ok.mp h
      cases size with
      | none => simpa [ht, size?_of_sizing hsize] using Except.ok.inj h
      | some size => simpa [ht, size?_of_sizing hsize] using Except.ok.inj h

/-- What the search gives is what contains the address. -/
theorem containing?_of_search {a : UInt64} {found : Option (Symbol × Int64)}
    (h : g.search a = .ok found) : g.containing? a = found := by
  unfold search at h
  unfold containing?
  cases hat : g.at? a with
  | some s =>
    rw [hat] at h
    exact Except.ok.inj h
  | none =>
    rw [hat] at h
    dsimp only at h ⊢
    generalize g.below a = starts at h ⊢
    induction starts with
    | nil => exact Except.ok.inj h
    | cons x rest ih =>
      obtain ⟨start, name⟩ := x
      obtain ⟨first, hfirst, h⟩ := bind_eq_ok.mp h
      rw [List.findSome?_cons, reaching_eq_ok hfirst]
      cases first with
      | some first => exact Except.ok.inj h
      | none => exact ih h

/-- What is found inside a variable is found in the one that starts first. -/
theorem containing?_first {a : UInt64} {v : Symbol} {distance : Int64}
    (h : g.containing? a = some (v, distance)) (hnone : g.at? a = none) :
    ∃ start, g.Offers a start v ∧ distance = (a - start).toInt64 ∧
      ∀ start' w, g.Offers a start' w → start ≤ start' := by
  unfold containing? below at h
  rw [hnone] at h
  -- the scan runs by ascending start, and stops at the first variable that reaches
  have hsorted : (g.addresses.toList.filter fun x => decide (x.1 < a)).Pairwise
      fun x y => compare x.1 y.1 = .lt := Std.TreeMap.ordered_keys_toList.filter _
  obtain ⟨⟨start, name⟩, hmem, hfound, hleast⟩ := findSome?_least hsorted h
  obtain ⟨hmem, hlt⟩ := List.mem_filter.mp hmem
  have hname := Std.TreeMap.mem_toList_iff_getElem?_eq_some.mp hmem
  simp only [Option.bind_eq_bind, Option.bind_eq_some_iff] at hfound
  obtain ⟨s, hs, t, ht, n, hn, hfound⟩ := hfound
  split at hfound
  next hreaches =>
    obtain ⟨rfl, rfl⟩ := Prod.mk.inj (Option.some.inj hfound)
    have hat : g.at? start = some s := by simp [at?, hname, hs]
    refine ⟨start, ⟨hat, of_decide_eq_true hlt, t, n, ht, hn, hreaches⟩, rfl, ?_⟩
    rintro start' w ⟨hw, hlt', t', n', ht', hn', hreaches'⟩
    obtain ⟨name', hname', hnamed'⟩ := Option.bind_eq_some_iff.mp hw
    have hmem' := Std.TreeMap.mem_toList_iff_getElem?_eq_some.mpr hname'
    rcases hleast (start', name') (List.mem_filter.mpr ⟨hmem', decide_eq_true hlt'⟩)
      (by simp [hnamed', ht', hn', hreaches']) with heq | hnext
    · cases heq
      exact UInt64.le_refl start
    · exact UInt64.le_of_lt (Std.compare_eq_lt.mp hnext)
  next => cases hfound

/-- What is found is known at the very address, or at one before it from where its bytes reach. -/
theorem containing?_cases {a : UInt64} {v : Symbol} {distance : Int64}
    (h : g.containing? a = some (v, distance)) :
    (g.at? a = some v ∧ distance = 0) ∨
      ∃ start t n, g.at? start = some v ∧ start < a ∧ v.type = some t ∧ g.size? t = some n ∧
        (a - start).toNat < n ∧ distance = (a - start).toInt64 := by
  cases hat : g.at? a with
  | some s =>
    rw [containing?, hat] at h
    obtain ⟨rfl, rfl⟩ := Prod.mk.inj (Option.some.inj h)
    exact .inl ⟨rfl, rfl⟩
  | none =>
    obtain ⟨start, ⟨hknown, hlt, t, n, ht, hn, hreaches⟩, hdistance, -⟩ := containing?_first h hat
    exact .inr ⟨start, t, n, hknown, hlt, ht, hn, hreaches, hdistance⟩

/-- Only the variable at the very address contains it without a distance. -/
theorem at?_of_containing? {a : UInt64} {s : Symbol} (h : g.containing? a = some (s, 0)) :
    g.at? a = some s := by
  obtain ⟨hat, -⟩ | ⟨start, -, -, -, hlt, -, -, -, hzero⟩ := containing?_cases h
  · exact hat
  · have heq : a - start = 0 := by
      rw [← UInt64.toUInt64_toInt64 (a - start), ← hzero]
      rfl
    grind

theorem containing?_of_at? {a : UInt64} {s : Symbol} (h : g.at? a = some s) :
    g.containing? a = some (s, 0) := by
  rw [containing?, h]

theorem at?_eq_none {a : UInt64} (h : g.containing? a = none) : g.at? a = none := by
  unfold containing? at h
  split at h
  · cases h
  · assumption

/-! ### An address that is asked for -/

/-- The table has a made-up variable at an address, and is like another one apart from that. -/
structure Holds (a : UInt64) (g g' : Globals) : Prop where
  containing : ∀ b, g'.containing? b =
    if b = a then some (unknownVariable a, 0) else g.containing? b
  at_ : ∀ b, g'.at? b = if b = a then some (unknownVariable a) else g.at? b
  named : ∀ name, g'.named? name =
    if name = (unknownVariable a).name then some (unknownVariable a) else g.named? name

theorem Registered.holds_self (h : g.Registered) {a : UInt64}
    (ha : g.at? a = some (unknownVariable a)) : g.Holds a g where
  containing b := by
    split
    next heq => rw [heq, containing?_of_at? ha]
    next => rfl
  at_ b := by
    split
    next heq => rw [heq, ha]
    next => rfl
  named name := by
    split
    next heq => rw [heq, (h.of_at? ha).1]
    next => rfl

theorem Registered.holds_addVariable (h : g.Registered) {a : UInt64} (ha : g.at? a = none)
    (hnew : g.named? (unknownVariable a).name = none) :
    g.Holds a (g.addVariable (unknownVariable a)).2 where
  containing b := by
    rw [containing?_addVariable h hnew]
    · simp [unknownVariable, eq_comm]
    · rintro b ⟨⟩
      exact ⟨rfl, ha⟩
  at_ b := by
    rw [at?_addVariable h hnew]
    simp [unknownVariable, eq_comm]
  named name := by
    rw [named?_addVariable, addVariable_of_none hnew]
    simp only [eq_comm]

/-- A variable that looks made up is where it was made up. -/
theorem Registered.named?_ne (h : g.Registered) {a : UInt64} (ha : g.at? a = none) :
    g.named? (unknownVariable a).name ≠ some (unknownVariable a) := by
  intro hs
  have hfound := h.at?_of_named? hs (a := a) rfl
  rw [ha] at hfound
  cases hfound

/-- A question about an address leaves the table as it is, or has to do with a made-up variable. -/
theorem Registered.located_cases (h : g.Registered) (a : UInt64) :
    ((g.located a).1 = unknownVariable a ∧ g.Holds a (g.located a).2) ∨
      ((g.located a).1 ≠ unknownVariable a ∧ (g.located a).2 = g) := by
  unfold located
  split
  next s hs =>
    by_cases heq : s = unknownVariable a
    · exact .inl ⟨heq, h.holds_self (heq ▸ hs)⟩
    · exact .inr ⟨heq, rfl⟩
  next hnone =>
    cases hnamed : g.named? (unknownVariable a).name with
    | some s =>
      rw [addVariable_of_some hnamed]
      exact .inr ⟨fun heq => h.named?_ne hnone (heq ▸ hnamed), rfl⟩
    | none =>
      refine .inl ⟨?_, h.holds_addVariable hnone hnamed⟩
      rw [addVariable_of_none hnamed]

theorem Registered.accessed_cases (h : g.Registered) (a : UInt64) :
    ((g.accessed a).1 = (unknownVariable a, 0) ∧ g.Holds a (g.accessed a).2) ∨
      ((g.accessed a).1 ≠ (unknownVariable a, 0) ∧ (g.accessed a).2 = g) := by
  unfold accessed
  split
  next found hfound =>
    by_cases heq : found = (unknownVariable a, 0)
    · exact .inl ⟨heq, h.holds_self (at?_of_containing? (heq ▸ hfound))⟩
    · exact .inr ⟨heq, rfl⟩
  next hnone =>
    -- nothing contains the address, so this is the question for the variable at the address
    have hlocated : g.addVariable (unknownVariable a) = g.located a := by
      rw [located, at?_eq_none hnone]
    rw [hlocated]
    rcases h.located_cases a with ⟨hmade, hholds⟩ | ⟨hother, hsame⟩
    · exact .inl ⟨by rw [hmade], hholds⟩
    · exact .inr ⟨fun heq => hother (congrArg Prod.fst heq), hsame⟩

/-! ### A function that is asked for -/

theorem named?_called (g : Globals) (name n : String) :
    (g.called name).2.named? n = if name = n then some (g.called name).1 else g.named? n :=
  named?_addVariable g (unknownFunction name) n

/-- A function has no address. -/
theorem Registered.called_keeps (h : g.Registered) (name : String) :
    (∀ a, (g.called name).2.containing? a = g.containing? a) ∧
      ∀ a, (g.called name).2.at? a = g.at? a := by
  cases hnamed : g.named? name with
  | some s =>
    rw [called, addVariable_of_some (s := unknownFunction name) hnamed]
    exact ⟨fun _ => rfl, fun _ => rfl⟩
  | none =>
    have hnew : g.named? (unknownFunction name).name = none := hnamed
    exact ⟨fun a => by rw [called, containing?_addVariable h hnew nofun]; exact if_neg nofun,
      fun a => by rw [called, at?_addVariable h hnew]; exact if_neg nofun⟩

/-! ### Tables that are asked -/

/-- A table with the variables that were made up for questions, none at an address that another one
was known at. -/
def Made (qs : List Lookup) : Globals → Globals → Prop :=
  Relation.ReflTransGen fun g g' => ∃ q ∈ qs, ∃ v ∈ q.madeUp?,
    (∀ a ∈ v.address, g.at? a = none) ∧ g' = (g.addVariable v).2

theorem Made.sameTypes {qs : List Lookup} (h : g.Made qs g') : g.SameTypes g' := by
  induction h with
  | refl => exact ⟨rfl, rfl⟩
  | tail _ hstep ih =>
    obtain ⟨q, -, v, -, -, rfl⟩ := hstep
    exact ih.trans (sameTypes_addVariable _ v)

theorem Registered.made {qs : List Lookup} (h : g.Registered) (hmade : g.Made qs g') :
    g'.Registered := by
  induction hmade with
  | refl => exact h
  | tail _ hstep ih =>
    obtain ⟨q, -, v, -, -, rfl⟩ := hstep
    exact ih.addVariable v

theorem made_located {qs : List Lookup} {a : UInt64} (ha : .access a ∈ qs) (g : Globals) :
    g.Made qs (g.located a).2 := by
  unfold located
  split
  · exact .refl
  next hnone =>
    refine .single ⟨_, ha, _, rfl, fun b hb => ?_, rfl⟩
    rwa [← Option.some.inj hb]

theorem made_accessed {qs : List Lookup} {a : UInt64} (ha : .access a ∈ qs) (g : Globals) :
    g.Made qs (g.accessed a).2 := by
  unfold accessed
  split
  · exact .refl
  next hnone =>
    refine .single ⟨_, ha, _, rfl, fun b hb => ?_, rfl⟩
    rw [← Option.some.inj hb]
    exact at?_eq_none hnone

theorem made_called {qs : List Lookup} {name : String} (hname : .function name ∈ qs)
    (g : Globals) : g.Made qs (g.called name).2 :=
  .single ⟨_, hname, _, rfl, nofun, rfl⟩

namespace Alike

variable {qs : List Lookup}

theorem refl (h : g.Registered) (qs : List Lookup) : g.Alike qs g where
  composites := rfl
  typedefs := rfl
  left := h
  right := h
  answers
    | .constant _, _ => rfl
    | .access _, _ => ⟨rfl, rfl⟩
    | .function _, _ => rfl

/-- Two tables that hold the same made-up variable answer alike if those without it do. -/
theorem holds {a : UInt64} {g₁ g₁' : Globals} (h : g.Alike qs g') (hg : g.Holds a g₁)
    (hg' : g'.Holds a g₁') (htypes : g₁.SameTypes g₁') (hleft : g₁.Registered)
    (hright : g₁'.Registered) : g₁.Alike qs g₁' := by
  refine ⟨htypes, hleft, hright, fun q hq => ?_⟩
  have hanswers := h.answers q hq
  cases q with
  | constant b =>
    show g₁.containing? b = g₁'.containing? b
    rw [hg.containing, hg'.containing, show g.containing? b = g'.containing? b from hanswers]
  | access b =>
    by_cases hb : b = a
    · subst hb
      exact ⟨accessed_congr (by rw [hg.containing, hg'.containing, if_pos rfl, if_pos rfl])
          (by rw [hg.named, hg'.named, if_pos rfl, if_pos rfl]),
        located_congr (by rw [hg.at_, hg'.at_, if_pos rfl, if_pos rfl])
          (by rw [hg.named, hg'.named, if_pos rfl, if_pos rfl])⟩
    · -- at another address, each table answers as it did without the variable
      have hname : (unknownVariable b).name ≠ (unknownVariable a).name :=
        fun heq => hb (unknownVariable_name_inj heq)
      have hold {g g₁ : Globals} (hg : g.Holds a g₁) :
          (g₁.accessed b).1 = (g.accessed b).1 ∧ (g₁.located b).1 = (g.located b).1 :=
        ⟨accessed_congr (by rw [hg.containing, if_neg hb]) (by rw [hg.named, if_neg hname]),
          located_congr (by rw [hg.at_, if_neg hb]) (by rw [hg.named, if_neg hname])⟩
      exact ⟨(hold hg).1.trans (hanswers.1.trans (hold hg').1.symm),
        (hold hg).2.trans (hanswers.2.trans (hold hg').2.symm)⟩
  | function name =>
    by_cases hname : name = (unknownVariable a).name
    · exact called_congr (by rw [hg.named, hg'.named, if_pos hname, if_pos hname])
    · have hold {g g₁ : Globals} (hg : g.Holds a g₁) : (g₁.called name).1 = (g.called name).1 :=
        called_congr (by rw [hg.named, if_neg hname])
      exact (hold hg).trans (hanswers.trans (hold hg').symm)

section Ask

variable (h : g.Alike qs g')
include h

theorem symm : g'.Alike qs g where
  toSameTypes := h.toSameTypes.symm
  left := h.right
  right := h.left
  answers
    | .constant _, hq => Eq.symm (h.answers _ hq)
    | .access _, hq => ⟨(h.answers _ hq).1.symm, (h.answers _ hq).2.symm⟩
    | .function _, hq => Eq.symm (h.answers _ hq)

theorem types_made {g₁ g₁' : Globals} (hmade : g.Made qs g₁) (hmade' : g'.Made qs g₁') :
    g₁.SameTypes g₁' :=
  hmade.sameTypes.symm.trans (h.toSameTypes.trans hmade'.sameTypes)

/-- Two tables that gave the same answer about an address go on answering alike. -/
theorem asked {α : Type} {a : UInt64} {made : α} {x x' : α × Globals} (hanswer : x.1 = x'.1)
    (hcases : (x.1 = made ∧ g.Holds a x.2) ∨ (x.1 ≠ made ∧ x.2 = g))
    (hcases' : (x'.1 = made ∧ g'.Holds a x'.2) ∨ (x'.1 ≠ made ∧ x'.2 = g'))
    (hmade : g.Made qs x.2) (hmade' : g'.Made qs x'.2) : x.2.Alike qs x'.2 := by
  rcases hcases with ⟨hnew, hholds⟩ | ⟨hother, hsame⟩
  · rcases hcases' with ⟨-, hholds'⟩ | ⟨hother', -⟩
    · exact h.holds hholds hholds' (h.types_made hmade hmade') (h.left.made hmade)
        (h.right.made hmade')
    · exact absurd (hanswer ▸ hnew) hother'
  · rcases hcases' with ⟨hnew', -⟩ | ⟨-, hsame'⟩
    · exact absurd (hanswer.trans hnew') hother
    · rwa [hsame, hsame']

theorem located {a : UInt64} (ha : .access a ∈ qs) :
    (g.located a).1 = (g'.located a).1 ∧ (g.located a).2.Alike qs (g'.located a).2 :=
  ⟨(h.answers _ ha).2,
    h.asked (h.answers _ ha).2 (h.left.located_cases a) (h.right.located_cases a)
      (made_located ha g) (made_located ha g')⟩

theorem accessed {a : UInt64} (ha : .access a ∈ qs) :
    (g.accessed a).1 = (g'.accessed a).1 ∧ (g.accessed a).2.Alike qs (g'.accessed a).2 :=
  ⟨(h.answers _ ha).1,
    h.asked (h.answers _ ha).1 (h.left.accessed_cases a) (h.right.accessed_cases a)
      (made_accessed ha g) (made_accessed ha g')⟩

/-- A variable that is known at an address is not made up elsewhere, if the functions of its name
are the same: the other table would have a function of that name. -/
theorem not_made_up {a : UInt64} {s : Symbol}
    (hcalled : (g.called (unknownVariable a).name).1 = (g'.called (unknownVariable a).name).1)
    (hs : g.at? a = some s) (hnone : g'.at? a = none) :
    s ≠ (g'.addVariable (unknownVariable a)).1 := by
  intro heq
  obtain ⟨hnamed, haddress⟩ := h.left.of_at? hs
  rw [addVariable_fst] at heq
  cases hname : g'.named? (unknownVariable a).name with
  | some s' =>
    rw [hname, Option.getD_some] at heq
    have hfound := h.right.at?_of_named? hname (heq ▸ haddress)
    rw [hnone] at hfound
    cases hfound
  | none =>
    rw [hname, Option.getD_none] at heq
    rw [heq] at hnamed
    rw [called, called, addVariable_fst, addVariable_fst] at hcalled
    change (g.named? (unknownVariable a).name).getD _ =
      (g'.named? (unknownVariable a).name).getD _ at hcalled
    rw [hnamed, hname, Option.getD_some, Option.getD_none] at hcalled
    cases congrArg Symbol.address hcalled

theorem at?_eq {a : UInt64} (hlocated : (g.located a).1 = (g'.located a).1)
    (hcalled : (g.called (unknownVariable a).name).1 = (g'.called (unknownVariable a).name).1) :
    g.at? a = g'.at? a := by
  unfold Globals.located at hlocated
  cases hs : g.at? a with
  | some s =>
    cases hs' : g'.at? a with
    | some s' =>
      rw [hs, hs'] at hlocated
      exact congrArg some hlocated
    | none =>
      rw [hs, hs'] at hlocated
      exact absurd hlocated (h.not_made_up hcalled hs hs')
  | none =>
    cases hs' : g'.at? a with
    | some s' =>
      rw [hs, hs'] at hlocated
      exact absurd hlocated.symm (h.symm.not_made_up hcalled.symm hs' hs)
    | none => rfl

theorem containing?_eq {a : UInt64} (haccessed : (g.accessed a).1 = (g'.accessed a).1)
    (hcalled : (g.called (unknownVariable a).name).1 = (g'.called (unknownVariable a).name).1) :
    g.containing? a = g'.containing? a := by
  unfold Globals.accessed at haccessed
  cases hs : g.containing? a with
  | some found =>
    cases hs' : g'.containing? a with
    | some found' =>
      rw [hs, hs'] at haccessed
      exact congrArg some haccessed
    | none =>
      rw [hs, hs'] at haccessed
      obtain rfl : found = _ := haccessed
      exact absurd rfl (h.not_made_up hcalled (at?_of_containing? hs) (at?_eq_none hs'))
  | none =>
    cases hs' : g'.containing? a with
    | some found' =>
      rw [hs, hs'] at haccessed
      obtain rfl : found' = _ := haccessed.symm
      exact absurd rfl
        (h.symm.not_made_up hcalled.symm (at?_of_containing? hs') (at?_eq_none hs))
    | none => rfl

theorem called {name : String} (hname : .function name ∈ qs) :
    (g.called name).1 = (g'.called name).1 ∧ (g.called name).2.Alike qs (g'.called name).2 := by
  have hanswer : (g.called name).1 = (g'.called name).1 := h.answers _ hname
  have hmade := made_called hname g
  have hmade' := made_called hname g'
  refine ⟨hanswer, h.types_made hmade hmade', h.left.made hmade, h.right.made hmade',
    fun q hq => ?_⟩
  obtain ⟨hcontaining, hat⟩ := h.left.called_keeps name
  obtain ⟨hcontaining', hat'⟩ := h.right.called_keeps name
  have hanswers := h.answers q hq
  cases q with
  | constant b => exact (hcontaining b).trans (Eq.trans hanswers (hcontaining' b).symm)
  | access b =>
    by_cases hb : name = (unknownVariable b).name
    · -- the function has the name of the variable that an access would make up
      have hnamed : (g.called name).2.named? (unknownVariable b).name =
          (g'.called name).2.named? (unknownVariable b).name := by
        rw [named?_called, named?_called, if_pos hb, if_pos hb, hanswer]
      subst hb
      refine ⟨accessed_congr ?_ hnamed, located_congr ?_ hnamed⟩
      · rw [hcontaining, hcontaining', h.containing?_eq hanswers.1 hanswer]
      · rw [hat, hat', h.at?_eq hanswers.2 hanswer]
    · have hold {g : Globals} (hg : g.Registered) :
          ((g.called name).2.accessed b).1 = (g.accessed b).1 ∧
            ((g.called name).2.located b).1 = (g.located b).1 := by
        have hnamed : (g.called name).2.named? (unknownVariable b).name =
            g.named? (unknownVariable b).name := by rw [named?_called, if_neg hb]
        exact ⟨accessed_congr ((hg.called_keeps name).1 b) hnamed,
          located_congr ((hg.called_keeps name).2 b) hnamed⟩
      exact ⟨(hold h.left).1.trans (hanswers.1.trans (hold h.right).1.symm),
        (hold h.left).2.trans (hanswers.2.trans (hold h.right).2.symm)⟩
  | function name' =>
    by_cases hname' : name = name'
    · exact called_congr
        (by rw [named?_called, named?_called, if_pos hname', if_pos hname', hanswer])
    · have hold (g : Globals) : ((g.called name).2.called name').1 = (g.called name').1 :=
        called_congr (by rw [named?_called, if_neg hname'])
      exact (hold g).trans (Eq.trans hanswers (hold g').symm)

end Ask

end Alike

end Globals

end FactLift
