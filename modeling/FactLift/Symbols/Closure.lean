import FactLift.Symbols.Globals

/-! The composites that some types lead to.

They are listed breadth first: the ones that are mentioned first, then those that the fields of
these mention, and so on. A composite is listed once, whether it is known or not, so composites that
mention each other in a circle are no obstacle. -/

namespace FactLift.Globals

/-- The keys that the fields of a composite mention; nothing for a composite that is not known. -/
def mentionedBy (g : Globals) (key : Nat) : List Nat :=
  match g.composite? key with
  | some c => c.fields.flatMap fun f => f.type.keys
  | none => []

/-- How many composites are not among those listed. -/
def unlisted (g : Globals) (listed : List Nat) : Nat :=
  g.composites.keys.countP fun key => !listed.contains key

theorem unlisted_cons_le (g : Globals) (key : Nat) (listed : List Nat) :
    g.unlisted (key :: listed) ≤ g.unlisted listed := by
  apply List.countP_mono_left
  simp_all

theorem mentionedBy_eq_nil {g : Globals} {key : Nat} (h : key ∉ g.composites) :
    g.mentionedBy key = [] := by
  simp [mentionedBy, composite?, h]

theorem unlisted_cons_lt {g : Globals} {key : Nat} {listed : List Nat}
    (h : key ∈ g.composites) (fresh : ¬ listed.contains key) :
    g.unlisted (key :: listed) < g.unlisted listed := by
  have present : key ∈ g.composites.keys := Std.TreeMap.mem_keys.2 h
  unfold unlisted
  generalize g.composites.keys = keys at present
  induction keys with
  | nil => cases present
  | cons k rest ih =>
    have le : rest.countP (fun k => !(key :: listed).contains k) ≤
        rest.countP fun k => !listed.contains k := by
      apply List.countP_mono_left
      simp_all
    by_cases same : k = key
    · subst same
      rw [List.countP_cons_of_neg (by simp), List.countP_cons_of_pos (by simpa using fresh)]
      omega
    · have := ih (by simpa [Ne.symm same] using present)
      simp only [List.countP_cons, List.contains_cons, beq_eq_false_iff_ne.2 same, Bool.false_or]
      simp only [List.contains_cons] at this
      omega

/-- The composites that a queue of keys leads to, apart from those listed before. -/
def closureAfter (g : Globals) (listed : List Nat) (queue : List Nat) : List Nat :=
  match queue with
  | [] => []
  | key :: rest =>
    if listed.contains key then g.closureAfter listed rest
    else key :: g.closureAfter (key :: listed) (rest ++ g.mentionedBy key)
termination_by (g.unlisted listed, queue.length)
decreasing_by
  · exact Prod.Lex.right _ (by simp)
  · rename_i fresh
    by_cases h : key ∈ g.composites
    · exact Prod.Lex.left _ _ (unlisted_cons_lt h fresh)
    · rw [mentionedBy_eq_nil h]
      rcases Nat.lt_or_eq_of_le (g.unlisted_cons_le key listed) with lt | eq
      · exact Prod.Lex.left _ _ lt
      · rw [eq]
        exact Prod.Lex.right _ (by simp)

/-- The composites that some keys lead to, in the order in which they are found. -/
def closure (g : Globals) (keys : List Nat) : List Nat :=
  g.closureAfter [] keys

end FactLift.Globals
