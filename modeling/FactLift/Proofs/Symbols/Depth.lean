import FactLift.Proofs.Except
import FactLift.Symbols.Globals
import Mathlib.Algebra.GroupWithZero.Nat
import Mathlib.Algebra.Order.BigOperators.Group.List
import Mathlib.Algebra.Order.Group.Nat
import Mathlib.Data.List.Count

/-! The bound under which types are measured.

Types are measured by looking into them so deep at most, and what is deeper is a fault. The bound
hides nothing: with more of it the result is the same, and a type that comes to an end with some
bound does so with the one that is used (`sizing_eq_ok_iff`). So `endless` is said of those types
only that no bound is enough for (`sizing_eq_error_iff`). The least bounds go down one by one from a
type to what stands inside it, so they belong to different types, and there are no more types than
the table and the type itself are made of. -/

namespace FactLift.Globals

open C

variable {g : Globals} {t u element : Ty} {depth : Nat} {size : Option Nat}

/-! ### What stands directly inside -/

/-- The types whose sizes are asked for when a type is measured. -/
def inner (g : Globals) (t : Ty) : List Ty :=
  match g.resolve t with
  | .array element _ => [element]
  | .composite key _ => (g.composite? key).elim [] fun c => c.fields.map (·.type)
  | _ => []

theorem fieldsSize_mono {c : Composite} {sizes sizes' : Ty → Except Fault (Option Nat)}
    {fields : List Field}
    (h : ∀ f ∈ fields, ∀ n, sizes f.type = .ok n → sizes' f.type = .ok n) {start : Nat}
    (hsize : fieldsSize c sizes start fields = .ok size) :
    fieldsSize c sizes' start fields = .ok size := by
  induction fields generalizing start with
  | nil => exact hsize
  | cons f rest ih =>
    obtain ⟨hfirst, hrest⟩ := List.forall_mem_cons.mp h
    obtain ⟨n, hn, hsize⟩ := bind_eq_ok.mp hsize
    refine bind_eq_ok.mpr ⟨n, hfirst n hn, ?_⟩
    cases hend : n.bind (fieldEnd? c f) with
    | some fieldEnd =>
      rw [hend] at hsize
      exact ih hrest hsize
    | none =>
      rw [hend] at hsize
      exact hsize

/-- A type is measured in the same way if what stands inside it is. -/
theorem sizeFrom_mono {sizes sizes' : Ty → Except Fault (Option Nat)}
    (h : ∀ u ∈ g.inner t, ∀ n, sizes u = .ok n → sizes' u = .ok n)
    (hsize : g.sizeFrom sizes t = .ok size) : g.sizeFrom sizes' t = .ok size := by
  unfold inner at h
  unfold sizeFrom at hsize ⊢
  cases ht : g.resolve t with
  | array element length =>
    rw [ht] at h hsize
    dsimp only at hsize ⊢
    split at hsize
    next n _ =>
      by_cases hn : n < 0
      · rw [if_pos hn] at hsize ⊢
        exact hsize
      · rw [if_neg hn] at hsize ⊢
        obtain ⟨found, hfound, rfl⟩ := map_eq_ok.mp hsize
        exact map_eq_ok.mpr ⟨found, h element (List.mem_singleton_self _) found hfound, rfl⟩
    next => exact hsize
  | composite key name =>
    rw [ht] at h hsize
    dsimp only at h hsize ⊢
    cases hc : g.composite? key with
    | none =>
      rw [hc] at hsize
      exact hsize
    | some c =>
      rw [hc] at h hsize
      exact fieldsSize_mono (fun f hf => h f.type (List.mem_map_of_mem hf)) hsize
  | _ =>
    rw [ht] at hsize
    exact hsize

/-! ### More room -/

theorem sizeWithin_succ (h : g.sizeWithin depth t = .ok size) :
    g.sizeWithin (depth + 1) t = .ok size := by
  induction depth generalizing t size with
  | zero => cases h
  | succ depth ih => exact sizeFrom_mono (fun u _ n => ih) h

/-- More room changes nothing. -/
theorem sizeWithin_mono {depth' : Nat} (hle : depth ≤ depth') (h : g.sizeWithin depth t = .ok size) :
    g.sizeWithin depth' t = .ok size :=
  Nat.le_induction h (fun _ _ => sizeWithin_succ) depth' hle

/-- A type is measured to the end, looking into it so deep at most. -/
def ends (g : Globals) (depth : Nat) (t : Ty) : Bool :=
  (g.sizeWithin depth t).isOk

theorem ends_iff : g.ends depth t ↔ ∃ size, g.sizeWithin depth t = .ok size := by
  unfold ends
  cases g.sizeWithin depth t with
  | error fault => exact iff_of_false nofun nofun
  | ok size => exact iff_of_true rfl ⟨size, rfl⟩

theorem ends_succ (h : g.ends depth t) : g.ends (depth + 1) t := by
  obtain ⟨size, hsize⟩ := ends_iff.mp h
  exact ends_iff.mpr ⟨size, sizeWithin_succ hsize⟩

/-- This bound is the least one, less one. -/
def EndsAfter (g : Globals) (depth : Nat) (t : Ty) : Prop :=
  g.ends (depth + 1) t ∧ ¬ g.ends depth t

theorem exists_endsAfter (h : g.ends depth t) : ∃ least < depth, g.EndsAfter least t := by
  induction depth with
  | zero => cases h
  | succ depth ih =>
    by_cases hdepth : g.ends depth t
    · obtain ⟨least, hlt, hleast⟩ := ih hdepth
      exact ⟨least, Nat.lt_succ_of_lt hlt, hleast⟩
    · exact ⟨depth, Nat.lt_succ_self depth, h, hdepth⟩

/-- Inside a type stands one whose least bound is smaller by one. -/
theorem EndsAfter.inner (h : g.EndsAfter (depth + 1) t) : ∃ u ∈ g.inner t, g.EndsAfter depth u := by
  by_contra hnone
  obtain ⟨size, hsize⟩ := ends_iff.mp h.1
  refine h.2 (ends_iff.mpr ⟨size, sizeFrom_mono (fun u hu n hn => ?_) hsize⟩)
  by_cases hdepth : g.ends depth u
  · obtain ⟨m, hm⟩ := ends_iff.mp hdepth
    rw [hm, ← hn, sizeWithin_succ hm]
  · exact absurd ⟨u, hu, ends_iff.mpr ⟨n, hn⟩, hdepth⟩ hnone

/-! ### The types of a table -/

/-- An array type with the types of its elements, of theirs and so on; any other type alone. -/
def layers : Ty → List Ty
  | .array element length => .array element length :: layers element
  | t => [t]

theorem length_layers : ∀ t : Ty, (layers t).length = t.depth + 1
  | .array element _ => by rw [layers, List.length_cons, length_layers element, Ty.depth]
  | .void | .int _ | .float _ | .pointer _ | .function .. | .named _ | .composite ..
  | .enumeration .. => rfl

theorem mem_layers_self (t : Ty) : t ∈ layers t := by
  cases t <;> simp [layers]

theorem element_mem_layers {length : Option Expr} :
    ∀ {t : Ty}, .array element length ∈ layers t → element ∈ layers t
  | .array t _, h => by
    rcases List.mem_cons.mp h with heq | h
    · obtain ⟨rfl, -⟩ := Ty.array.inj heq
      exact List.mem_cons_of_mem _ (mem_layers_self element)
    · exact List.mem_cons_of_mem _ (element_mem_layers h)
  | .void, h | .int _, h | .float _, h | .pointer _, h | .function .., h | .named _, h
  | .composite .., h | .enumeration .., h => by cases List.mem_singleton.mp h

/-- The types that a table is made of. -/
def parts (g : Globals) : List Ty :=
  (g.composites.toList.flatMap fun (_, c) => c.fields.flatMap fun f => layers f.type) ++
    g.typedefs.toList.flatMap fun (_, t) => layers t

/-- All that looking into a type can come to. -/
def within (g : Globals) (t : Ty) : List Ty :=
  layers t ++ g.parts

theorem foldl_add_eq_sum {α : Type} (l : List α) (f : α → Nat) (start : Nat) :
    l.foldl (fun n x => n + f x) start = start + (l.map f).sum := by
  induction l generalizing start with
  | nil => rfl
  | cons x rest ih => rw [List.foldl_cons, ih, List.map_cons, List.sum_cons, Nat.add_assoc]

theorem length_parts_le (g : Globals) : g.parts.length ≤ g.nesting := by
  have hcomposite (c : Composite) : (c.fields.flatMap fun f => layers f.type).length ≤
      c.fields.foldl (fun n f => n + (f.type.depth + 1)) 1 := by
    rw [foldl_add_eq_sum, List.length_flatMap]
    simp only [length_layers]
    omega
  have hcomposites := List.sum_le_sum (l := g.composites.toList) fun x _ => hcomposite x.2
  rw [parts, nesting, List.length_append, List.length_flatMap, List.length_flatMap]
  simp only [length_layers, foldl_add_eq_sum, Nat.zero_add] at hcomposites ⊢
  omega

theorem length_within_le (g : Globals) (t : Ty) :
    (g.within t).length ≤ t.depth + g.nesting + 1 := by
  have hparts := g.length_parts_le
  rw [within, List.length_append, length_layers]
  omega

theorem layers_subset_parts_of_field {key : Nat} {c : Composite} (hc : g.composite? key = some c)
    {f : Field} (hf : f ∈ c.fields) : layers f.type ⊆ g.parts := by
  have hmem := Std.TreeMap.mem_toList_iff_getElem?_eq_some.mpr hc
  exact fun u hu => List.mem_append_left _
    (List.mem_flatMap.mpr ⟨(key, c), hmem, List.mem_flatMap.mpr ⟨f, hf, hu⟩⟩)

theorem layers_subset_parts_of_name {name : String} (ht : g.typedefs[name]? = some t) :
    layers t ⊆ g.parts := by
  have hmem := Std.TreeMap.mem_toList_iff_getElem?_eq_some.mpr ht
  exact fun u hu => List.mem_append_right _ (List.mem_flatMap.mpr ⟨(name, t), hmem, hu⟩)

theorem mem_within_self (g : Globals) (t : Ty) : t ∈ g.within t :=
  List.mem_append_left _ (mem_layers_self t)

theorem resolve_mem_within (h : u ∈ g.within t) : g.resolve u ∈ g.within t := by
  unfold resolve
  generalize maxTypedefs = limit
  induction limit generalizing u with
  | zero => exact h
  | succ limit ih =>
    cases u with
    | named name =>
      unfold resolveWithin
      cases hname : g.typedefs[name]? with
      | none => exact h
      | some u =>
        exact ih (List.mem_append_right _ (layers_subset_parts_of_name hname (mem_layers_self u)))
    | _ => exact h

theorem element_mem_within {length : Option Expr} (h : .array element length ∈ g.within t) :
    element ∈ g.within t := by
  unfold within parts at h ⊢
  simp only [List.mem_append, List.mem_flatMap] at h ⊢
  rcases h with h | ⟨x, hx, f, hf, h⟩ | ⟨x, hx, h⟩
  · exact .inl (element_mem_layers h)
  · exact .inr (.inl ⟨x, hx, f, hf, element_mem_layers h⟩)
  · exact .inr (.inr ⟨x, hx, element_mem_layers h⟩)

theorem field_mem_within {key : Nat} {c : Composite} (hc : g.composite? key = some c) {f : Field}
    (hf : f ∈ c.fields) : f.type ∈ g.within t :=
  List.mem_append_right _ (layers_subset_parts_of_field hc hf (mem_layers_self f.type))

theorem inner_mem_within (h : u ∈ g.within t) {w : Ty} (hw : w ∈ g.inner u) : w ∈ g.within t := by
  have hresolved := resolve_mem_within h
  unfold inner at hw
  split at hw
  next hu =>
    rw [hu] at hresolved
    obtain rfl := List.mem_singleton.mp hw
    exact element_mem_within hresolved
  next key name hu =>
    cases hc : g.composite? key with
    | none =>
      rw [hc] at hw
      cases hw
    | some c =>
      rw [hc] at hw
      obtain ⟨f, hf, rfl⟩ := List.mem_map.mp hw
      exact field_mem_within hc hf
  next => cases hw

/-! ### Enough room -/

/-- Each bound below the least one of a type is, less one, the least one of another type. -/
theorem EndsAfter.exists_mem (h : g.EndsAfter depth u) (hu : u ∈ g.within t) {least : Nat}
    (hle : least ≤ depth) : ∃ w ∈ g.within t, g.EndsAfter least w := by
  induction depth generalizing u with
  | zero =>
    obtain rfl := Nat.le_zero.mp hle
    exact ⟨u, hu, h⟩
  | succ depth ih =>
    rcases Nat.le_succ_iff.mp hle with hle | rfl
    · obtain ⟨w, hw, hends⟩ := h.inner
      exact ih hends (inner_mem_within hu hw) hle
    · exact ⟨u, hu, h⟩

theorem countP_lt_countP {α : Type} {p q : α → Bool} {l : List α} (h : ∀ x, p x → q x) {x : α}
    (hx : x ∈ l) (hp : ¬ p x) (hq : q x) : l.countP p < l.countP q := by
  obtain ⟨before, after, rfl⟩ := List.append_of_mem hx
  have hbefore : before.countP p ≤ before.countP q := List.countP_mono_left fun y _ => h y
  have hafter : after.countP p ≤ after.countP q := List.countP_mono_left fun y _ => h y
  rw [List.countP_append, List.countP_append, List.countP_cons_of_neg hp, List.countP_cons_of_pos hq]
  omega

theorem EndsAfter.le_countP (h : g.EndsAfter depth u) (hu : u ∈ g.within t) {bound : Nat}
    (hle : bound ≤ depth + 1) : bound ≤ (g.within t).countP (g.ends bound) := by
  induction bound with
  | zero => exact Nat.zero_le _
  | succ bound ih =>
    obtain ⟨w, hw, hends, hnot⟩ := h.exists_mem hu (Nat.le_of_succ_le_succ hle)
    exact Nat.lt_of_le_of_lt (ih (Nat.le_of_succ_le hle))
      (countP_lt_countP (fun _ => ends_succ) hw hnot hends)

/-- What comes to an end at all does so with room for the whole table and a type around it. -/
theorem sizeWithin_of_mem (hu : u ∈ g.within t) (h : g.sizeWithin depth u = .ok size) :
    g.sizeWithin (t.depth + g.nesting + 1) u = .ok size := by
  obtain ⟨least, hlt, hleast⟩ := exists_endsAfter (ends_iff.mpr ⟨size, h⟩)
  obtain ⟨size', hsize'⟩ := ends_iff.mp hleast.1
  have hroom : least + 1 ≤ t.depth + g.nesting + 1 :=
    Nat.le_trans (hleast.le_countP hu (Nat.le_refl _))
      (Nat.le_trans List.countP_le_length (g.length_within_le t))
  have hsame := (sizeWithin_mono (Nat.succ_le_of_lt hlt) hsize').symm.trans h
  exact (sizeWithin_mono hroom hsize').trans hsame

/-- **The bound is enough.** A type has the size that it has with some bound. -/
theorem sizing_eq_ok_iff : g.sizing t = .ok size ↔ ∃ depth, g.sizeWithin depth t = .ok size :=
  ⟨fun h => ⟨_, h⟩, fun ⟨_, h⟩ => sizeWithin_of_mem (g.mem_within_self t) h⟩

theorem fieldsSize_eq_error {c : Composite} {sizes : Ty → Except Fault (Option Nat)} {fault : Fault}
    (hsizes : ∀ u, sizes u = .error fault → fault = .endless) {fields : List Field} {start : Nat}
    (h : fieldsSize c sizes start fields = .error fault) : fault = .endless := by
  induction fields generalizing start with
  | nil => cases h
  | cons f rest ih =>
    unfold fieldsSize at h
    cases hf : sizes f.type with
    | error fault' =>
      rw [hf] at h
      obtain rfl : fault' = fault := Except.error.inj h
      exact hsizes f.type hf
    | ok size =>
      rw [hf, ok_bind] at h
      split at h
      · exact ih h
      · cases h

/-- Measuring a type can only fail by not coming to an end. -/
theorem sizeWithin_eq_error {fault : Fault} (h : g.sizeWithin depth t = .error fault) :
    fault = .endless := by
  induction depth generalizing t with
  | zero => exact (Except.error.inj h).symm
  | succ depth ih =>
    unfold sizeWithin sizeFrom at h
    cases ht : g.resolve t with
    | array element length =>
      rw [ht] at h
      dsimp only at h
      split at h
      · split at h
        · cases h
        · cases helement : g.sizeWithin depth element with
          | error fault' =>
            rw [helement] at h
            obtain rfl : fault' = fault := Except.error.inj h
            exact ih helement
          | ok size =>
            rw [helement] at h
            cases h
      · cases h
    | composite key name =>
      rw [ht] at h
      dsimp only at h
      split at h
      · exact fieldsSize_eq_error (fun _ => ih) h
      · cases h
    | _ =>
      rw [ht] at h
      cases h

/-- A type is said not to come to an end if it does not with any bound. -/
theorem sizing_eq_error_iff {fault : Fault} : g.sizing t = .error fault ↔
    fault = .endless ∧ ∀ depth, g.sizeWithin depth t = .error .endless := by
  refine ⟨fun h => ?_, fun ⟨hfault, h⟩ => hfault ▸ h _⟩
  obtain rfl := sizeWithin_eq_error h
  refine ⟨rfl, fun depth => ?_⟩
  cases hsize : g.sizeWithin depth t with
  | error fault => rw [sizeWithin_eq_error hsize]
  | ok size =>
    rw [sizing_eq_ok_iff.mpr ⟨depth, hsize⟩] at h
    cases h

end FactLift.Globals
