import FactLift.Proofs.Symbols.Depth
import FactLift.Proofs.Symbols.KnownFields

/-! The bound under which byte offsets are followed.

A path needs no more room than measuring does: from the first elements on it stays inside of types
that were measured to the end (`navigateWithin_of_size`). So a byte offset leads with the bound that
is used where it leads with some bound (`navigation_eq_iff`), and it is said not to come to an end
only if it does not with any (`navigation_eq_endless_iff`). -/

namespace FactLift.Globals

open C

variable {g : Globals} {t u host element : Ty} {depth : Nat} {size : Option Nat} {bytes : Int64}

/-! ### More room -/

theorem ok_ne_error {α : Type} {a : α} {fault : Fault} : Except.ok a ≠ .error fault := nofun

theorem map_ne_error {α β : Type} {x : Except Fault α} {f : α → β} {fault : Fault} :
    f <$> x ≠ .error fault ↔ x ≠ .error fault := by
  cases x with
  | error fault' =>
    exact not_congr
      ⟨fun h => congrArg _ (Except.error.inj h), fun h => congrArg _ (Except.error.inj h)⟩
  | ok a => exact iff_of_true ok_ne_error ok_ne_error

theorem intoField_mono {f : Field} {intoArray intoArray' : Ty → Except Fault Path}
    (h : ∀ t, intoArray t ≠ .error .endless → intoArray' t = intoArray t)
    (hends : g.intoField f bytes intoArray ≠ .error .endless) :
    g.intoField f bytes intoArray' = g.intoField f bytes intoArray := by
  unfold intoField at hends ⊢
  cases hf : g.resolve f.type with
  | array element length =>
    rw [hf] at hends
    exact h _ hends
  | _ => rfl

/-- A path that comes to an end is the same if those that it goes on with are. -/
theorem navigateFrom_mono {paths paths' : Ty → Int64 → Except Fault Path}
    (h : ∀ t rest, paths t rest ≠ .error .endless → paths' t rest = paths t rest)
    (hends : g.navigateFrom paths host bytes ≠ .error .endless) :
    g.navigateFrom paths' host bytes = g.navigateFrom paths host bytes := by
  unfold navigateFrom at hends ⊢
  cases hhost : g.resolve host with
  | composite key name =>
    rw [hhost] at hends
    dsimp only at hends ⊢
    cases hc : g.composite? key with
    | none => rfl
    | some c =>
      rw [hc] at hends
      dsimp only at hends ⊢
      by_cases hcomplete : ¬ c.isComplete
      · rw [if_pos hcomplete, if_pos hcomplete]
      rw [if_neg hcomplete] at hends ⊢
      rw [if_neg hcomplete]
      cases hf : c.fieldAt? bytes with
      | none => rfl
      | some found =>
        obtain ⟨f, rest⟩ := found
        rw [hf] at hends
        dsimp only at hends ⊢
        by_cases hrest : rest = 0
        · rw [if_pos hrest, if_pos hrest]
        rw [if_neg hrest] at hends ⊢
        rw [if_neg hrest, intoField_mono (fun t => h t rest) (map_ne_error.mp hends)]
  | array element length =>
    rw [hhost] at hends
    dsimp only at hends ⊢
    cases hsize : g.sizing element with
    | error fault => rfl
    | ok size =>
      rw [hsize, ok_bind] at hends
      rw [ok_bind, ok_bind]
      cases hn : size.filter (0 < ·) with
      | none => rfl
      | some n =>
        rw [hn] at hends
        dsimp only at hends ⊢
        by_cases hover : overflows bytes (Int64.ofNat n)
        · rw [if_pos hover, if_pos hover]
        rw [if_neg hover] at hends ⊢
        rw [if_neg hover]
        by_cases hrest : Int64.ofInt (bytes.toInt % (Int64.ofNat n).toInt) = 0
        · rw [if_pos hrest, if_pos hrest]
        rw [if_neg hrest] at hends ⊢
        rw [if_neg hrest, h _ _ (map_ne_error.mp hends)]
  | _ => rfl

theorem navigateWithin_succ (h : g.navigateWithin depth host bytes ≠ .error .endless) :
    g.navigateWithin (depth + 1) host bytes = g.navigateWithin depth host bytes := by
  induction depth generalizing host bytes with
  | zero => exact absurd rfl h
  | succ depth ih => exact navigateFrom_mono (fun _ _ => ih) h

theorem navigateWithin_mono {depth' : Nat} (hle : depth ≤ depth')
    (h : g.navigateWithin depth host bytes ≠ .error .endless) :
    g.navigateWithin depth' host bytes = g.navigateWithin depth host bytes := by
  induction depth', hle using Nat.le_induction with
  | base => rfl
  | succ depth' _ ih => rw [navigateWithin_succ (ih ▸ h), ih]

/-! ### Types that have a size -/

theorem fieldsSize_eq_some {c : Composite} {sizes : Ty → Except Fault (Option Nat)}
    {fields : List Field} {start n : Nat} (h : fieldsSize c sizes start fields = .ok (some n)) :
    ∀ f ∈ fields, ∃ m, sizes f.type = .ok (some m) := by
  induction fields generalizing start with
  | nil => exact fun _ hf => absurd hf List.not_mem_nil
  | cons f rest ih =>
    obtain ⟨size, hsize, h⟩ := bind_eq_ok.mp h
    cases size with
    | none => cases h
    | some m =>
      refine List.forall_mem_cons.mpr ⟨⟨m, hsize⟩, ?_⟩
      split at h
      · exact ih h
      · cases h

theorem sizeWithin_congr (h : g.resolve t = g.resolve u) (depth : Nat) :
    g.sizeWithin depth t = g.sizeWithin depth u := by
  cases depth with
  | zero => rfl
  | succ depth => rw [sizeWithin, sizeWithin, sizeFrom, sizeFrom, h]

theorem size_of_array {length : Option Expr} {n : Nat} (ht : g.resolve t = .array element length)
    (h : g.sizeWithin (depth + 1) t = .ok (some n)) :
    ∃ m, g.sizeWithin depth element = .ok (some m) := by
  unfold sizeWithin sizeFrom at h
  rw [ht] at h
  dsimp only at h
  split at h
  · split at h
    · cases h
    · obtain ⟨size, hsize, htotal⟩ := map_eq_ok.mp h
      cases size with
      | none => cases htotal
      | some m => exact ⟨m, hsize⟩
  · cases h

theorem size_of_field {key : Nat} {name : String} {c : Composite} {f : Field} {n : Nat}
    (ht : g.resolve t = .composite key name) (hc : g.composite? key = some c) (hf : f ∈ c.fields)
    (h : g.sizeWithin (depth + 1) t = .ok (some n)) :
    ∃ m, g.sizeWithin depth f.type = .ok (some m) := by
  unfold sizeWithin sizeFrom at h
  simp only [ht, hc] at h
  exact fieldsSize_eq_some h f hf

/-- A path into what is neither an array nor a composite ends there. -/
theorem navigateFrom_scalar {paths : Ty → Int64 → Except Fault Path}
    (harray : ∀ element length, g.resolve host ≠ .array element length)
    (hcomposite : ∀ key name, g.resolve host ≠ .composite key name) :
    g.navigateFrom paths host bytes ≠ .error .endless := by
  unfold navigateFrom
  cases hhost : g.resolve host with
  | array element length => exact absurd hhost (harray element length)
  | composite key name => exact absurd hhost (hcomposite key name)
  | _ =>
    dsimp only
    split <;> exact ok_ne_error

/-- A path into elements goes on with a path into an element only. -/
theorem navigateFrom_array {paths : Ty → Int64 → Except Fault Path} {length : Option Expr}
    (hhost : g.resolve host = .array element length) (hsize : g.sizing element = .ok size)
    (h : ∀ n rest, size = some n → paths element rest ≠ .error .endless) :
    g.navigateFrom paths host bytes ≠ .error .endless := by
  unfold navigateFrom
  rw [hhost]
  dsimp only
  rw [hsize, ok_bind]
  split
  next => exact ok_ne_error
  next n hn =>
    obtain ⟨hn, -⟩ := Option.filter_eq_some_iff.mp hn
    split
    next => simp
    next =>
      rw [map_ne_error]
      split
      next => exact ok_ne_error
      next => exact h n _ hn

/-- A path into a composite goes on with a path into the array of one of its fields only. -/
theorem navigateFrom_composite {paths : Ty → Int64 → Except Fault Path} {key : Nat} {name : String}
    (hhost : g.resolve host = .composite key name)
    (h : ∀ c f rest element length, g.composite? key = some c → f ∈ c.fields →
      g.resolve f.type = .array element length → c.fieldAt? bytes = some (f, rest) → rest ≠ 0 →
        paths (.array element length) rest ≠ .error .endless) :
    g.navigateFrom paths host bytes ≠ .error .endless := by
  unfold navigateFrom
  rw [hhost]
  dsimp only
  split
  next => exact ok_ne_error
  next c hc =>
    split
    next => exact ok_ne_error
    next =>
      cases hf : c.fieldAt? bytes with
      | none => exact ok_ne_error
      | some found =>
        obtain ⟨f, rest⟩ := found
        dsimp only
        rw [map_ne_error]
        split
        next => exact ok_ne_error
        next hrest =>
          unfold intoField
          cases hinner : g.resolve f.type with
          | array element length =>
            exact h c f rest element length hc (Composite.fieldAt?_eq_some hf).1 hinner hf hrest
          | composite =>
            dsimp only
            split
            next => split <;> exact ok_ne_error
            next => exact ok_ne_error
          | _ => exact ok_ne_error

/-- Into a type that has a size, a path goes no deeper than measuring it does. -/
theorem navigateWithin_of_size {n : Nat} (h : g.sizeWithin depth t = .ok (some n)) (bytes : Int64) :
    g.navigateWithin depth t bytes ≠ .error .endless := by
  induction depth generalizing t n bytes with
  | zero => cases h
  | succ depth ih =>
    cases ht : g.resolve t with
    | array element length =>
      obtain ⟨m, hm⟩ := size_of_array ht h
      exact navigateFrom_array ht (sizing_eq_ok_iff.mpr ⟨depth, hm⟩) fun _ rest _ => ih hm rest
    | composite key name =>
      refine navigateFrom_composite ht fun c f rest element length hc hf hinner _ _ => ?_
      obtain ⟨m, hm⟩ := size_of_field ht hc hf h
      have hsame : g.resolve f.type = g.resolve (.array element length) := hinner
      exact ih ((sizeWithin_congr hsame depth).symm.trans hm) rest
    | _ => exact navigateFrom_scalar (by simp [ht]) (by simp [ht])

/-! ### Enough room -/

/-- Once it is known how large the elements are, or that it is not, a path into an array comes to an
end. -/
theorem navigateWithin_of_sizing {length : Option Expr}
    (hhost : g.resolve host = .array element length) (hmem : element ∈ g.within t)
    (hsize : g.sizing element = .ok size) (bytes : Int64) :
    g.navigateWithin (t.depth + g.nesting + 2) host bytes ≠ .error .endless := by
  refine navigateFrom_array hhost hsize fun n rest hn => ?_
  subst hn
  exact navigateWithin_of_size (sizeWithin_of_mem hmem hsize) rest

/-- A path into an array that comes to an end has measured the elements. -/
theorem sizing_of_navigateWithin {length : Option Expr}
    (hhost : g.resolve host = .array element length)
    (h : g.navigateWithin depth host bytes ≠ .error .endless) :
    ∃ size, g.sizing element = .ok size := by
  cases hsize : g.sizing element with
  | ok size => exact ⟨size, rfl⟩
  | error fault =>
    obtain ⟨rfl, -⟩ := sizing_eq_error_iff.mp hsize
    refine absurd ?_ h
    cases depth with
    | zero => rfl
    | succ depth =>
      unfold navigateWithin navigateFrom
      rw [hhost]
      dsimp only
      rw [hsize]
      rfl

theorem navigation_ne_endless (h : g.navigateWithin depth host bytes ≠ .error .endless) :
    g.navigation host bytes ≠ .error .endless := by
  cases depth with
  | zero => exact absurd rfl h
  | succ depth =>
    have hmem := resolve_mem_within (g.mem_within_self host)
    cases hhost : g.resolve host with
    | array element length =>
      rw [hhost] at hmem
      obtain ⟨size, hsize⟩ := sizing_of_navigateWithin hhost h
      have hends := navigateWithin_of_sizing hhost (element_mem_within hmem) hsize bytes
      rw [navigation, navigateWithin_succ hends]
      exact hends
    | composite key name =>
      refine navigateFrom_composite hhost fun c f rest element length hc hf hinner hat hrest => ?_
      have hinside := resolve_mem_within (field_mem_within (t := host) hc hf)
      rw [hinner] at hinside
      -- the path that was found went into the same array
      have hcomplete : ¬ ¬ c.isComplete := not_not_intro (Composite.isComplete_of_fieldAt? hat)
      have hpath : g.navigateWithin depth (.array element length) rest ≠ .error .endless := by
        unfold navigateWithin navigateFrom intoField at h
        simpa only [hhost, hc, if_neg hcomplete, hat, if_neg hrest, hinner, map_ne_error] using h
      obtain ⟨size, hsize⟩ := sizing_of_navigateWithin rfl hpath
      exact navigateWithin_of_sizing rfl (element_mem_within hinside) hsize rest
    | _ => exact navigateFrom_scalar (by simp [hhost]) (by simp [hhost])

/-- **The bound is enough.** A byte offset leads where it does with some bound. -/
theorem navigation_eq_iff {outcome : Except Fault Path} (houtcome : outcome ≠ .error .endless) :
    g.navigation host bytes = outcome ↔ ∃ depth, g.navigateWithin depth host bytes = outcome := by
  refine ⟨fun h => ⟨_, h⟩, fun ⟨depth, h⟩ => ?_⟩
  subst h
  have hends := navigation_ne_endless houtcome
  rw [navigation] at hends ⊢
  rcases Nat.le_total depth (host.depth + g.nesting + 3) with hle | hle
  · exact navigateWithin_mono hle houtcome
  · exact (navigateWithin_mono hle hends).symm

/-- A byte offset is said not to come to an end if it does not with any bound. -/
theorem navigation_eq_endless_iff : g.navigation host bytes = .error .endless ↔
    ∀ depth, g.navigateWithin depth host bytes = .error .endless := by
  refine ⟨fun h depth => ?_, fun h => h _⟩
  by_contra hends
  exact navigation_ne_endless hends h

end FactLift.Globals
