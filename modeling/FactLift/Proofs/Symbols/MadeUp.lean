import FactLift.Proofs.Symbols.Lookups

/-! What making variables up leaves alone.

Variables that are there keep their names and addresses (`Made.kept`, `Made.at?_kept`), and what is
new was made up for one of the questions (`Made.added`). A question is answered as before unless one
of those that were asked disturbs it, by making up what it finds (`Made.answersAlike`). -/

namespace FactLift

open C

/-- Asking the first question may change the answer to the second one: a variable may be made up
where the second one finds it, at the address or under the name that it is about. -/
def Lookup.Disturbs (g : Globals) : Lookup → Lookup → Prop
  | .access a, .constant b => a = b ∧ g.at? a = none
  | .access a, .access b => a = b ∧ g.at? a = none ∧ (g.containing? a).isSome
  | .access a, .function name | .function name, .access a =>
    name = (Globals.unknownVariable a).name ∧ g.at? a = none
  | .constant _, _ | .function _, .constant _ | .function _, .function _ => False

instance (g : Globals) : ∀ q q' : Lookup, Decidable (q.Disturbs g q')
  | .access a, .constant b => inferInstanceAs (Decidable (a = b ∧ g.at? a = none))
  | .access a, .access b =>
    inferInstanceAs (Decidable (a = b ∧ g.at? a = none ∧ (g.containing? a).isSome))
  | .access a, .function name | .function name, .access a =>
    inferInstanceAs (Decidable (name = (Globals.unknownVariable a).name ∧ g.at? a = none))
  | .constant _, _ | .function _, .constant _ | .function _, .function _ =>
    inferInstanceAs (Decidable False)

namespace Globals

variable {g g' : Globals} {qs : List Lookup}

/-! ### Variables -/

theorem named?_of_addVariable (v : Symbol) {name : String} {s : Symbol}
    (h : g.named? name = some s) : (g.addVariable v).2.named? name = some s := by
  rw [named?_addVariable]
  split
  next heq =>
    rw [addVariable_fst, heq, h]
    rfl
  next => exact h

theorem Made.kept (h : g.Made qs g') {name : String} {s : Symbol} (hs : g.named? name = some s) :
    g'.named? name = some s := by
  induction h with
  | refl => exact hs
  | tail _ hstep ih =>
    obtain ⟨q, -, v, -, -, rfl⟩ := hstep
    exact named?_of_addVariable v ih

/-- What is new was made up for a question. -/
theorem Made.added (h : g.Made qs g') {name : String} {s : Symbol} (hnew : g.named? name = none)
    (hs : g'.named? name = some s) : ∃ q ∈ qs, q.madeUp? = some s ∧ s.name = name := by
  induction h with
  | refl =>
    rw [hnew] at hs
    cases hs
  | @tail g₁ _ _ hstep ih =>
    obtain ⟨q, hq, v, hv, -, rfl⟩ := hstep
    rw [named?_addVariable, addVariable_fst] at hs
    split at hs
    next heq =>
      rw [heq] at hs
      cases hknown : g₁.named? name with
      | some v' => exact ih (hknown.trans (by simpa [hknown] using hs))
      | none =>
        obtain rfl : v = s := by simpa [hknown] using hs
        exact ⟨q, hq, hv, heq⟩
    next => exact ih hs

/-! ### Addresses -/

/-- A variable that is made up has no type. -/
theorem type_of_madeUp? {q : Lookup} {v : Symbol} (hv : q.madeUp? = some v) {a : UInt64}
    (ha : v.address = some a) : v.type = none := by
  cases q with
  | constant b => cases hv
  | access b =>
    obtain rfl := Option.some.inj hv
    rfl
  | function name =>
    obtain rfl := Option.some.inj hv
    cases ha

/-- Making one more variable up leaves the other addresses alone. -/
theorem Registered.step_elsewhere (h : g.Registered) {q : Lookup} {v : Symbol}
    (hv : q.madeUp? = some v) (hfree : ∀ a ∈ v.address, g.at? a = none) {a : UInt64}
    (ha : v.address ≠ some a) :
    (g.addVariable v).2.at? a = g.at? a ∧ (g.addVariable v).2.containing? a = g.containing? a := by
  cases hnamed : g.named? v.name with
  | some s =>
    rw [addVariable_of_some hnamed]
    exact ⟨rfl, rfl⟩
  | none =>
    rw [at?_addVariable h hnamed, if_neg ha,
      containing?_addVariable h hnamed fun b hb => ⟨type_of_madeUp? hv hb, hfree b hb⟩, if_neg ha]
    exact ⟨rfl, rfl⟩

theorem Made.at?_kept (h : g.Made qs g') (hg : g.Registered) {a : UInt64} {s : Symbol}
    (hs : g.at? a = some s) : g'.at? a = some s := by
  induction h with
  | refl => exact hs
  | @tail g₁ _ hmade hstep ih =>
    obtain ⟨q, -, v, hv, hfree, rfl⟩ := hstep
    have ha : v.address ≠ some a := by
      intro ha
      rw [hfree a ha] at ih
      cases ih
    rw [((hg.made hmade).step_elsewhere hv hfree ha).1, ih]

/-- As long as nothing is known at an address, what contains it is as before. -/
theorem Made.containing?_kept (h : g.Made qs g') (hg : g.Registered) {a : UInt64}
    (ha : g'.at? a = none) : g'.containing? a = g.containing? a := by
  induction h with
  | refl => rfl
  | @tail g₁ _ hmade hstep ih =>
    obtain ⟨q, hq, v, hv, hfree, rfl⟩ := hstep
    have hg₁ := hg.made hmade
    cases hnamed : g₁.named? v.name with
    | some s =>
      rw [addVariable_of_some hnamed] at ha ⊢
      exact ih ha
    | none =>
      have hv' : v.address ≠ some a := by
        intro hva
        rw [at?_addVariable hg₁ hnamed, if_pos hva] at ha
        cases ha
      obtain ⟨hat, hcontaining⟩ := hg₁.step_elsewhere hv hfree hv'
      rw [hcontaining]
      exact ih (hat ▸ ha)

/-! ### Answers -/

theorem accessed_of_at? {a : UInt64} {s : Symbol} (h : g.at? a = some s) :
    (g.accessed a).1 = (s, 0) := by
  rw [accessed, containing?_of_at? h]

theorem located_of_at? {a : UInt64} {s : Symbol} (h : g.at? a = some s) : (g.located a).1 = s := by
  rw [located, h]

theorem called_fst (g : Globals) (name : String) :
    (g.called name).1 = (g.named? name).getD (unknownFunction name) :=
  addVariable_fst g _

theorem AnswersAlike.refl (g : Globals) (q : Lookup) : g.AnswersAlike g q := by
  cases q with
  | constant | function => rfl
  | access => exact ⟨rfl, rfl⟩

theorem AnswersAlike.trans {g'' : Globals} {q : Lookup} (h : g.AnswersAlike g' q)
    (h' : g'.AnswersAlike g'' q) : g.AnswersAlike g'' q := by
  cases q with
  | constant | function => exact Eq.trans h h'
  | access => exact ⟨h.1.trans h'.1, h.2.trans h'.2⟩

/-- If nothing contains an address, a variable that was made up there is what the next access makes
up. -/
theorem Registered.answersAlike_self (h : g.Registered) {a : UInt64} (hat : g.at? a = none)
    (hcontaining : g.containing? a = none) :
    g.AnswersAlike (g.addVariable (unknownVariable a)).2 (.access a) := by
  cases hnamed : g.named? (unknownVariable a).name with
  | some s =>
    rw [addVariable_of_some hnamed]
    exact .refl g _
  | none =>
    have hadded : (g.addVariable (unknownVariable a)).1 = unknownVariable a := by
      rw [addVariable_fst, hnamed, Option.getD_none]
    have hfound : (g.addVariable (unknownVariable a)).2.at? a = some (unknownVariable a) := by
      rw [at?_addVariable h hnamed]
      exact if_pos rfl
    constructor
    · rw [accessed_of_at? hfound, accessed, hcontaining, hadded]
    · rw [located_of_at? hfound, located, hat, hadded]

/-- One variable more, made up for a question that does not disturb another one. -/
theorem Registered.step_answersAlike (h : g.Registered) {q q' : Lookup} {v : Symbol}
    (hv : q.madeUp? = some v) (hfree : ∀ a ∈ v.address, g.at? a = none)
    (hq : ¬ q.Disturbs g q') : g.AnswersAlike (g.addVariable v).2 q' := by
  have helsewhere {b : UInt64} (hb : v.address ≠ some b) := h.step_elsewhere hv hfree hb
  have hother {name : String} (hname : v.name ≠ name) :
      (g.addVariable v).2.named? name = g.named? name := by
    rw [named?_addVariable, if_neg hname]
  -- an access finds what is at its address, or makes up a variable with a name of its own
  have haccess {b : UInt64} (hb : v.address ≠ some b) (hname : v.name ≠ (unknownVariable b).name) :
      g.AnswersAlike (g.addVariable v).2 (.access b) :=
    ⟨accessed_congr (helsewhere hb).2.symm (hother hname).symm,
      located_congr (helsewhere hb).1.symm (hother hname).symm⟩
  cases q with
  | constant a => cases hv
  | access a =>
    obtain rfl := Option.some.inj hv
    have hnone : g.at? a = none := hfree a rfl
    cases q' with
    | constant b =>
      refine (helsewhere fun hb => hq ?_).2.symm
      exact ⟨Option.some.inj hb, hnone⟩
    | access b =>
      by_cases hab : a = b
      · subst hab
        refine h.answersAlike_self hnone ?_
        by_contra hsome
        exact hq ⟨rfl, hnone, Option.isSome_iff_ne_none.mpr hsome⟩
      · exact haccess (fun hb => hab (Option.some.inj hb))
          fun hname => hab (unknownVariable_name_inj hname)
    | function name =>
      exact called_congr (hother fun hname => hq ⟨hname.symm, hnone⟩).symm
  | function name =>
    obtain rfl := Option.some.inj hv
    cases q' with
    | constant b => exact (helsewhere nofun).2.symm
    | access b =>
      by_cases hname : name = (unknownVariable b).name
      · -- the variable at the address is found, so the name plays no part
        obtain ⟨s, hs⟩ := Option.ne_none_iff_exists'.mp fun hnone => hq ⟨hname, hnone⟩
        have hs' := (helsewhere (b := b) nofun).1.trans hs
        exact ⟨(accessed_of_at? hs).trans (accessed_of_at? hs').symm,
          (located_of_at? hs).trans (located_of_at? hs').symm⟩
      · exact haccess nofun hname
    | function name' =>
      by_cases hname : name = name'
      · subst hname
        show (g.called name).1 = ((g.called name).2.called name).1
        rw [called_fst (g.called name).2, named?_called, if_pos rfl, Option.getD_some]
      · exact called_congr (hother hname).symm

/-- **What is left alone.** Making variables up changes no answer to a question that none of those
that were asked disturbs. -/
theorem Made.answersAlike (h : g.Made qs g') (hg : g.Registered) {q' : Lookup}
    (hqs : ∀ q ∈ qs, ¬ q.Disturbs g q') : g.AnswersAlike g' q' := by
  induction h with
  | refl => exact .refl g q'
  | @tail g₁ _ hmade hstep ih =>
    obtain ⟨q, hq, v, hv, hfree, rfl⟩ := hstep
    refine ih.trans ((hg.made hmade).step_answersAlike hv hfree fun hdisturbs => hqs q hq ?_)
    -- nothing that a question finds in the first table is gone in a later one
    have hat {a : UInt64} (ha : g₁.at? a = none) : g.at? a = none := by
      by_contra hsome
      obtain ⟨s, hs⟩ := Option.ne_none_iff_exists'.mp hsome
      rw [Made.at?_kept hmade hg hs] at ha
      cases ha
    cases q with
    | constant a => cases hv
    | access a =>
      cases q' with
      | constant b => exact ⟨hdisturbs.1, hat hdisturbs.2⟩
      | access b =>
        obtain ⟨rfl, hnone, hsome⟩ := hdisturbs
        exact ⟨rfl, hat hnone, by rwa [← Made.containing?_kept hmade hg hnone]⟩
      | function name => exact ⟨hdisturbs.1, hat hdisturbs.2⟩
    | function name =>
      cases q' with
      | constant b => exact hdisturbs
      | access b => exact ⟨hdisturbs.1, hat hdisturbs.2⟩
      | function name' => exact hdisturbs

end Globals

end FactLift
