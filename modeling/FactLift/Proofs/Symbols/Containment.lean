import FactLift.Proofs.Symbols.Depth
import FactLift.Proofs.Symbols.Registered
import Mathlib.Algebra.GroupWithZero.Nat
import Mathlib.Algebra.Order.BigOperators.Group.List
import Mathlib.Algebra.Order.Group.Nat
import Mathlib.Logic.Relation

/-! Types that do not contain themselves.

A table defines composites and type names. One of them contains another if a type in its definition
is made of the other one by value (`Globals.Contains`), and a table is acyclic if none contains
itself, however far down. Looking into types then comes to an end: each definition that is entered
uses up its part of the nesting of the table, and none is entered twice. `Globals.Fits depth t`
says that so many types inside each other are enough to look all the way into `t`; it is all that
sizes and paths need to know. -/

namespace FactLift

open C

/-- What a table can have a definition for. -/
inductive Part
  | composite (key : Nat)
  | name (name : String)
deriving DecidableEq

/-- The composite or type name that a type is made of. Pointers and functions are made of none, and
an array is made of what its elements are. -/
def C.Ty.part? : Ty → Option Part
  | .array element _ => element.part?
  | .named name => some (.name name)
  | .composite key _ => some (.composite key)
  | _ => none

namespace Globals

variable {g : Globals}

def definition (g : Globals) : Part → List Ty
  | .composite key => (g.composite? key).elim [] fun c => c.fields.map (·.type)
  | .name name => g.typedefs[name]?.toList

/-- The definition of the first contains the second by value. -/
def Contains (g : Globals) (p q : Part) : Prop :=
  ∃ t ∈ g.definition p, t.part? = some q

/-- Nothing contains itself. -/
def Acyclic (g : Globals) : Prop :=
  ∀ p, ¬ Relation.TransGen g.Contains p p

/-- A table is acyclic if what is contained always has a smaller rank. -/
theorem acyclic_of_rank (rank : Part → Nat) (h : ∀ p q, g.Contains p q → rank q < rank p) :
    g.Acyclic := by
  intro p hcycle
  have hlt {q : Part} (hq : Relation.TransGen g.Contains p q) : rank q < rank p := by
    induction hq with
    | single hstep => exact h _ _ hstep
    | tail _ hstep ih => exact Nat.lt_trans (h _ _ hstep) ih
  exact Nat.lt_irrefl _ (hlt hcycle)

theorem SameTypes.acyclic {g' : Globals} (h : g.SameTypes g') (hg : g.Acyclic) : g'.Acyclic := by
  have hdefinition : g'.definition = g.definition := by
    funext p
    cases p with
    | composite key => rw [definition, definition, h.composite?]
    | name name => rw [definition, definition, h.typedefs]
  have hcontains : g'.Contains = g.Contains := by
    unfold Contains
    rw [hdefinition]
  rw [Acyclic, hcontains]
  exact hg

/-! ### The room that is left -/

/-- How many types stand inside each other in a composite at most, fields side by side counted as
well. -/
def weight (c : Composite) : Nat :=
  c.fields.foldl (fun n f => n + (f.type.depth + 1)) 1

/-- The definitions of a table, each with its part of the nesting. -/
def weights (g : Globals) : List (Part × Nat) :=
  g.composites.toList.map (fun (key, c) => (.composite key, weight c)) ++
    g.typedefs.toList.map fun (name, t) => (.name name, t.depth + 1)

/-- The nesting of the definitions that are not entered. -/
def room (g : Globals) (entered : List Part) : Nat :=
  ((g.weights.filter fun x => x.1 ∉ entered).map (·.2)).sum

/-- Before anything is entered, there is room for the whole nesting. -/
theorem room_nil (g : Globals) : g.room [] = g.nesting := by
  have hall : g.weights.filter (fun x => x.1 ∉ []) = g.weights := by simp
  have hnesting : g.nesting = g.composites.toList.foldl (fun n x => n + weight x.2) 0 +
      g.typedefs.toList.foldl (fun n x => n + (x.2.depth + 1)) 0 := rfl
  rw [hnesting, foldl_add_eq_sum, foldl_add_eq_sum, Nat.zero_add, Nat.zero_add, room, hall, weights,
    List.map_append, List.sum_append, List.map_map, List.map_map]
  rfl

/-- Entering a definition takes its part of the room. -/
theorem add_room_le {p : Part} {n : Nat} {entered : List Part} (hp : (p, n) ∈ g.weights)
    (hnew : p ∉ entered) : n + g.room (p :: entered) ≤ g.room entered := by
  unfold room
  generalize g.weights = weights at hp
  induction weights with
  | nil => cases hp
  | cons x rest ih =>
    rcases List.mem_cons.mp hp with rfl | hp
    · have hmono : ((rest.filter fun y => y.1 ∉ p :: entered).map (·.2)).sum ≤
          ((rest.filter fun y => y.1 ∉ entered).map (·.2)).sum :=
        List.Sublist.sum_le_sum
          ((List.monotone_filter_right rest fun y hy => by simp_all).map _) (by simp)
      simpa [hnew] using hmono
    · have hrest := ih hp
      by_cases hx : x.1 ∈ entered
      · simpa [hx] using hrest
      by_cases heq : x.1 = p
      · rw [List.filter_cons_of_neg (by simp [heq]), List.filter_cons_of_pos (by simpa using hx),
          List.map_cons, List.sum_cons]
        omega
      · rw [List.filter_cons_of_pos (by simp [heq, hx]),
          List.filter_cons_of_pos (by simpa using hx), List.map_cons, List.map_cons,
          List.sum_cons, List.sum_cons]
        omega

theorem mem_weights_composite {key : Nat} {c : Composite} (hc : g.composite? key = some c) :
    (.composite key, weight c) ∈ g.weights := by
  refine List.mem_append_left _ (List.mem_map.mpr ⟨(key, c), ?_, rfl⟩)
  exact Std.TreeMap.mem_toList_iff_getElem?_eq_some.mpr hc

theorem mem_weights_name {name : String} {t : Ty} (ht : g.typedefs[name]? = some t) :
    (.name name, t.depth + 1) ∈ g.weights := by
  refine List.mem_append_right _ (List.mem_map.mpr ⟨(name, t), ?_, rfl⟩)
  exact Std.TreeMap.mem_toList_iff_getElem?_eq_some.mpr ht

/-- A field of a composite stands inside it once more than what its own type nests. -/
theorem depth_lt_weight {c : Composite} {f : Field} (hf : f ∈ c.fields) :
    f.type.depth < weight c := by
  have hle := List.single_le_sum (fun _ _ => Nat.zero_le _) _
    (List.mem_map_of_mem (f := fun f : Field => f.type.depth + 1) hf)
  rw [weight, foldl_add_eq_sum]
  omega

/-! ### Looking into a type -/

/-- No definition that looking into a type leads to is entered. -/
def Avoids (g : Globals) (t : Ty) (entered : List Part) : Prop :=
  ∀ p, t.part? = some p → ∀ q, Relation.ReflTransGen g.Contains p q → q ∉ entered

/-- So many types inside each other are enough to look all the way into a type. -/
def Fits (g : Globals) (depth : Nat) (t : Ty) : Prop :=
  ∃ entered, g.Avoids t entered ∧ t.depth + g.room entered < depth

theorem fits_nesting {depth : Nat} {t : Ty} (h : t.depth + g.nesting < depth) :
    g.Fits depth t :=
  ⟨[], fun _ _ _ _ => List.not_mem_nil, g.room_nil ▸ h⟩

/-- The definition of what a type is made of can be entered, and not once more from inside. -/
theorem Avoids.enter (hacyclic : g.Acyclic) {t u : Ty} {p : Part} {entered : List Part}
    (h : g.Avoids t entered) (hp : t.part? = some p) (hu : u ∈ g.definition p) :
    p ∉ entered ∧ g.Avoids u (p :: entered) := by
  refine ⟨h p hp p .refl, fun q hq r hr hmem => ?_⟩
  have hcontains : g.Contains p q := ⟨u, hu, hq⟩
  rcases List.mem_cons.mp hmem with rfl | hmem
  · exact hacyclic _ (.head' hcontains hr)
  · exact h p hp r (.head hcontains hr) hmem

namespace Fits

variable {depth : Nat} {t : Ty}

theorem pos (h : g.Fits depth t) : 0 < depth := by
  obtain ⟨_, _, hlt⟩ := h
  omega

theorem element {element : Ty} {length : Option Expr}
    (h : g.Fits (depth + 1) (.array element length)) : g.Fits depth element := by
  obtain ⟨entered, havoids, hlt⟩ := h
  refine ⟨entered, havoids, ?_⟩
  rw [Ty.depth] at hlt
  omega

theorem field (hacyclic : g.Acyclic) {key : Nat} {name : String} {c : Composite} {f : Field}
    (h : g.Fits (depth + 1) (.composite key name)) (hc : g.composite? key = some c)
    (hf : f ∈ c.fields) : g.Fits depth f.type := by
  obtain ⟨entered, havoids, hlt⟩ := h
  have hmem : f.type ∈ g.definition (.composite key) := by
    rw [definition, hc]
    exact List.mem_map_of_mem hf
  obtain ⟨hnew, hinside⟩ := havoids.enter hacyclic rfl hmem
  refine ⟨_, hinside, ?_⟩
  have hroom := add_room_le (mem_weights_composite hc) hnew
  have hweight := depth_lt_weight hf
  omega

theorem resolve (hacyclic : g.Acyclic) (h : g.Fits depth t) : g.Fits depth (g.resolve t) := by
  unfold Globals.resolve
  generalize maxTypedefs = limit
  induction limit generalizing t with
  | zero => exact h
  | succ limit ih =>
    cases t with
    | named name =>
      unfold resolveWithin
      cases hname : g.typedefs[name]? with
      | none => exact h
      | some u =>
        obtain ⟨entered, havoids, hlt⟩ := h
        have hmem : u ∈ g.definition (.name name) := by
          rw [definition, hname]
          exact List.mem_singleton_self u
        obtain ⟨hnew, hinside⟩ := havoids.enter hacyclic rfl hmem
        have hroom := add_room_le (mem_weights_name hname) hnew
        exact ih ⟨_, hinside, by omega⟩
    | _ => exact h

end Fits

end Globals

end FactLift
