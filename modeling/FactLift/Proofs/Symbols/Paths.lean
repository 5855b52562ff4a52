import FactLift.Proofs.Symbols.ByteExact
import FactLift.Proofs.Symbols.PathDepth
import FactLift.Proofs.Symbols.Sizes

/-! Paths by the rules of their types.

`g.Follows host bytes outcome` says by rules that know of no bound where a byte offset leads in a
type: on into the field that it falls into, on into an element of an array, or to a stop. The
offset is divided by the size of the elements, and where there is no quotient the outcome is a fault.
In an acyclic table there is exactly one outcome for every type and offset, and it is the one that is
computed as soon as the bound leaves room for the type (`follows_navigateWithin`,
`Follows.unique`). -/

namespace FactLift.Globals

open C

variable {g : Globals} {host : Ty} {bytes : Int64}

/-- The element that a byte offset falls into, and how far into it. -/
def indexOf (bytes : Int64) (size : Nat) : Int64 × Int64 :=
  (Int64.ofInt (bytes.toInt / (Int64.ofNat size).toInt),
    Int64.ofInt (bytes.toInt % (Int64.ofNat size).toInt))

/-- Where a byte offset leads in a type whose name is looked through. -/
inductive Followed (g : Globals) : Ty → Int64 → Except Fault Path → Prop
  | undefined {key : Nat} {name : String} {bytes : Int64} (hc : g.composite? key = none) :
      Followed g (.composite key name) bytes (.ok (.stuck s!"no definition of {name}"))
  | incomplete {key : Nat} {name : String} {bytes : Int64} {c : Composite}
      (hc : g.composite? key = some c) (h : ¬ c.isComplete) :
      Followed g (.composite key name) bytes
        (.ok (.stuck s!"{c.name} has no complete field layout"))
  | missing {key : Nat} {name : String} {bytes : Int64} {c : Composite}
      (hc : g.composite? key = some c) (h : c.isComplete) (hf : c.fieldAt? bytes = none) :
      Followed g (.composite key name) bytes
        (.ok (.stuck s!"no field of {c.name} at offset {bytes.toInt}"))
  | field {key : Nat} {name : String} {bytes : Int64} {c : Composite} {f : Field}
      (hc : g.composite? key = some c) (hf : c.fieldAt? bytes = some (f, 0)) :
      Followed g (.composite key name) bytes (.ok (.after (.field f.name key) (.landed f.type)))
  | inField {key : Nat} {name : String} {bytes rest : Int64} {c : Composite} {f : Field}
      (hc : g.composite? key = some c) (hf : c.fieldAt? bytes = some (f, rest)) (hrest : rest ≠ 0)
      (harray : (g.resolve f.type).element? = none) :
      Followed g (.composite key name) bytes
        (Path.after (.field f.name key) <$> g.intoField f rest fun t => .ok (.landed t))
  | inArrayField {key : Nat} {name : String} {bytes rest : Int64} {c : Composite} {f : Field}
      {outcome : Except Fault Path} {element : Ty} {length : Option Expr}
      (hc : g.composite? key = some c) (hf : c.fieldAt? bytes = some (f, rest)) (hrest : rest ≠ 0)
      (harray : g.resolve f.type = .array element length)
      (h : Followed g (.array element length) rest outcome) :
      Followed g (.composite key name) bytes (Path.after (.field f.name key) <$> outcome)
  | unsized {element : Ty} {length : Option Expr} {bytes : Int64} {size : Option Nat}
      (hsize : g.Measures element size) (h : size.filter (0 < ·) = none) :
      Followed g (.array element length) bytes (.ok (.stuck "array of elements of unknown size"))
  | overflow {element : Ty} {length : Option Expr} {bytes : Int64} {size : Nat}
      (hsize : g.Measures element (some size)) (hpos : 0 < size)
      (hover : overflows bytes (Int64.ofNat size)) :
      Followed g (.array element length) bytes (.error .quotient)
  | element {element : Ty} {length : Option Expr} {bytes i : Int64} {size : Nat}
      (hsize : g.Measures element (some size)) (hpos : 0 < size)
      (hword : ¬ overflows bytes (Int64.ofNat size)) (hindex : indexOf bytes size = (i, 0)) :
      Followed g (.array element length) bytes (.ok (.after (.index i) (.landed element)))
  | inElement {element : Ty} {length : Option Expr} {bytes i rest : Int64} {size : Nat}
      {outcome : Except Fault Path} (hsize : g.Measures element (some size)) (hpos : 0 < size)
      (hword : ¬ overflows bytes (Int64.ofNat size)) (hindex : indexOf bytes size = (i, rest))
      (hrest : rest ≠ 0) (h : Followed g (g.resolve element) rest outcome) :
      Followed g (.array element length) bytes (Path.after (.index i) <$> outcome)
  | whole {t : Ty} (harray : t.element? = none) (hkey : t.key? = none) :
      Followed g t 0 (.ok (.landed t))
  | scalar {t : Ty} {bytes : Int64} (harray : t.element? = none) (hkey : t.key? = none)
      (hbytes : bytes ≠ 0) :
      Followed g t bytes (.ok (.stuck s!"offset {bytes.toInt} into a scalar"))

/-- Where a byte offset leads in a type. -/
def Follows (g : Globals) (host : Ty) (bytes : Int64) (outcome : Except Fault Path) : Prop :=
  g.Followed (g.resolve host) bytes outcome

/-- An inner path is not asked for outside of arrays. -/
theorem intoField_congr {f : Field} (h : (g.resolve f.type).element? = none) (distance : Int64)
    (intoArray intoArray' : Ty → Except Fault Path) :
    g.intoField f distance intoArray = g.intoField f distance intoArray' := by
  unfold intoField
  split
  next => rfl
  next heq =>
    rw [heq] at h
    cases h
  next => rfl

theorem intoField_array {f : Field} {element : Ty} {length : Option Expr}
    (h : g.resolve f.type = .array element length) (distance : Int64)
    (intoArray : Ty → Except Fault Path) :
    g.intoField f distance intoArray = intoArray (.array element length) := by
  unfold intoField
  rw [h]

/-- **Paths come to an end.** -/
theorem follows_navigateWithin (hacyclic : g.Acyclic) {depth : Nat} (h : g.Fits depth host)
    (bytes : Int64) : g.Follows host bytes (g.navigateWithin depth host bytes) := by
  induction depth generalizing host bytes with
  | zero => exact absurd h.pos (Nat.lt_irrefl 0)
  | succ depth ih =>
    have hresolved := h.resolve hacyclic
    unfold Follows navigateWithin navigateFrom
    cases ht : g.resolve host with
    | array element length =>
      rw [ht] at hresolved
      dsimp only
      rw [sizing_eq_ok hacyclic, ok_bind]
      split
      next hsize => exact .unsized (measures_size? hacyclic element) hsize
      next size hsize =>
        obtain ⟨hsize, hpos⟩ := elementSize?_eq_some_iff.mp hsize
        have hmeasures := (measures_iff hacyclic).mpr hsize
        split
        next hover => exact .overflow hmeasures hpos hover
        next hword =>
          split
          next hrest => exact .element hmeasures hpos hword (Prod.ext rfl hrest)
          next hrest => exact .inElement hmeasures hpos hword rfl hrest (ih hresolved.element _)
    | composite key name =>
      rw [ht] at hresolved
      dsimp only
      split
      next hc => exact .undefined hc
      next c hc =>
        split
        next hcomplete => exact .incomplete hc hcomplete
        next hcomplete =>
          split
          next hf => exact .missing hc (not_not.mp hcomplete) hf
          next f rest hf =>
            have hmem := (Composite.fieldAt?_eq_some hf).1
            split
            next hrest =>
              subst hrest
              exact .field hc hf
            next hrest =>
              have hfield := (hresolved.field hacyclic hc hmem).resolve hacyclic
              cases hinner : g.resolve f.type with
              | array element length =>
                rw [hinner] at hfield
                rw [intoField_array hinner]
                exact .inArrayField hc hf hrest hinner (ih hfield rest)
              | _ =>
                have harray : (g.resolve f.type).element? = none := by rw [hinner]; rfl
                rw [intoField_congr harray rest _ fun t => .ok (.landed t)]
                exact .inField hc hf hrest harray
    | _ =>
      dsimp only
      split
      next hzero =>
        subst hzero
        exact .whole rfl rfl
      next hne => exact .scalar rfl rfl hne

theorem follows_navigation (hacyclic : g.Acyclic) (host : Ty) (bytes : Int64) :
    g.Follows host bytes (g.navigation host bytes) :=
  follows_navigateWithin hacyclic (fits_nesting (by omega)) bytes

/-! ### What an outcome can be -/

/-- What stands inside of a field is looked at once, and nothing is divided. -/
theorem intoField_ne_error {f : Field} (h : (g.resolve f.type).element? = none) (distance : Int64)
    (intoArray : Ty → Except Fault Path) (fault : Fault) :
    g.intoField f distance intoArray ≠ .error fault := by
  unfold intoField
  split
  next =>
    split
    · split <;> exact nofun
    · exact nofun
  next heq =>
    rw [heq] at h
    cases h
  next => exact nofun

/-- A path that is followed comes to an end, if only where there is no quotient. -/
theorem Followed.ne_endless {t : Ty} {outcome : Except Fault Path} (h : g.Followed t bytes outcome) :
    outcome ≠ .error .endless := by
  induction h with
  | inField hc hf hrest harray => exact map_ne_error.mpr (intoField_ne_error harray _ _ _)
  | inArrayField _ _ _ _ _ ih | inElement _ _ _ _ _ _ ih => exact map_ne_error.mpr ih
  | _ => exact nofun

theorem not_overflows (bytes : Int64) {size : Nat} (h : size < 2 ^ 63) :
    ¬ overflows bytes (Int64.ofNat size) := by
  have hdivisor : Int64.ofNat size ≠ -1 := by
    intro heq
    have hint := Int64.toInt_ofNat_of_lt h
    rw [heq] at hint
    have hminus : (-1 : Int64).toInt = -1 := by decide
    omega
  simp [overflows, hdivisor]

/-- Where all sizes fit into words, every quotient does, and there is a path. -/
theorem Followed.exists_path (hacyclic : g.Acyclic) {t : Ty} {outcome : Except Fault Path}
    (h : g.Followed t bytes outcome) (hsizes : g.SizesFit t) : ∃ path, outcome = .ok path := by
  induction h with
  | @inField _ _ _ rest _ f _ _ _ harray =>
    cases hinner : g.intoField f rest fun t => .ok (.landed t) with
    | ok path => exact ⟨_, rfl⟩
    | error fault => exact absurd hinner (intoField_ne_error harray _ _ _)
  | inArrayField hc hf _ harray _ ih =>
    have hmem := (Composite.fieldAt?_eq_some hf).1
    obtain ⟨path, rfl⟩ :=
      ih (hsizes.inside (.field hc hmem (.named (harray ▸ denotes_resolve g _) .self)))
    exact ⟨_, rfl⟩
  | overflow hsize _ hover =>
    have hfits := hsizes _ _ (.element .self) ((measures_iff hacyclic).mp hsize)
    exact absurd hover (not_overflows _ hfits)
  | inElement _ _ _ _ _ _ ih =>
    obtain ⟨path, rfl⟩ := ih (hsizes.inside (.element (.named (denotes_resolve g _) .self)))
    exact ⟨_, rfl⟩
  | _ => exact ⟨_, rfl⟩

/-! ### One path -/

/-- The outcome is computed as soon as the bound is large enough. -/
def Settles (g : Globals) (t : Ty) (bytes : Int64) (outcome : Except Fault Path) : Prop :=
  ∃ least, ∀ depth host, least ≤ depth → g.resolve host = t →
    g.navigateWithin depth host bytes = outcome

namespace Settles

variable {t u : Ty} {rest : Int64} {outcome inner : Except Fault Path}

theorem at_once (h : ∀ depth host, g.resolve host = t →
    g.navigateWithin (depth + 1) host bytes = outcome) : g.Settles t bytes outcome := by
  refine ⟨1, fun depth host hle ht => ?_⟩
  obtain ⟨depth, rfl⟩ := Nat.exists_eq_add_of_le' hle
  exact h depth host ht

theorem after (hinner : g.Settles u rest inner) (h : ∀ depth host, g.resolve host = t →
    (∀ host', g.resolve host' = u → g.navigateWithin depth host' rest = inner) →
      g.navigateWithin (depth + 1) host bytes = outcome) : g.Settles t bytes outcome := by
  obtain ⟨least, hinner⟩ := hinner
  refine ⟨least + 1, fun depth host hle ht => ?_⟩
  obtain ⟨depth, rfl⟩ := Nat.exists_eq_add_of_le' (Nat.le_trans (Nat.le_add_left 1 least) hle)
  exact h depth host ht fun host' => hinner depth host' (Nat.le_of_succ_le_succ hle)

end Settles

/-- Into anything else but arrays and composites, no byte offset leads. -/
theorem navigateWithin_scalar {t : Ty} (ht : g.resolve host = t) (harray : t.element? = none)
    (hkey : t.key? = none) (depth : Nat) :
    g.navigateWithin (depth + 1) host bytes =
      .ok (if bytes = 0 then .landed t else .stuck s!"offset {bytes.toInt} into a scalar") := by
  unfold navigateWithin navigateFrom
  rw [ht]
  cases t with
  | array => cases harray
  | composite => cases hkey
  | _ => dsimp only; split <;> rfl

/-- Into an array, by the size of its elements. -/
theorem navigateWithin_array (hacyclic : g.Acyclic) {element : Ty} {length : Option Expr}
    {size : Nat} (ht : g.resolve host = .array element length)
    (hsize : g.Measures element (some size)) (hpos : 0 < size) (depth : Nat) :
    g.navigateWithin (depth + 1) host bytes =
      if overflows bytes (Int64.ofNat size) then .error .quotient
      else Path.after (.index (indexOf bytes size).1) <$>
        if (indexOf bytes size).2 = 0 then .ok (.landed element)
        else g.navigateWithin depth element (indexOf bytes size).2 := by
  have hfound : (some size).filter (0 < ·) = some size := by simp [hpos]
  rw [navigateWithin, navigateFrom, ht]
  dsimp only
  rw [sizing_eq_ok hacyclic, (measures_iff hacyclic).mp hsize, ok_bind, hfound]
  rfl

/-- What is derived is computed. -/
theorem Followed.settles (hacyclic : g.Acyclic) {t : Ty} {outcome : Except Fault Path}
    (h : g.Followed t bytes outcome) : g.Settles t bytes outcome := by
  induction h with
  | undefined hc =>
    refine .at_once fun depth host ht => ?_
    simp only [navigateWithin, navigateFrom, ht, hc]
    rfl
  | incomplete hc h =>
    refine .at_once fun depth host ht => ?_
    simp only [navigateWithin, navigateFrom, ht, hc, if_pos h]
    rfl
  | missing hc h hf =>
    refine .at_once fun depth host ht => ?_
    simp only [navigateWithin, navigateFrom, ht, hc, if_neg (not_not_intro h), hf]
    rfl
  | field hc hf =>
    refine .at_once fun depth host ht => ?_
    have hcomplete := not_not_intro (Composite.isComplete_of_fieldAt? hf)
    simp only [navigateWithin, navigateFrom, ht, hc, if_neg hcomplete, hf, if_true]
    rfl
  | inField hc hf hrest harray =>
    refine .at_once fun depth host ht => ?_
    have hcomplete := not_not_intro (Composite.isComplete_of_fieldAt? hf)
    simp only [navigateWithin, navigateFrom, ht, hc, if_neg hcomplete, hf, if_neg hrest]
    rw [intoField_congr harray]
  | inArrayField hc hf hrest harray _ ih =>
    refine ih.after fun depth host ht hinner => ?_
    have hcomplete := not_not_intro (Composite.isComplete_of_fieldAt? hf)
    rw [navigateWithin, navigateFrom]
    simp only [ht, hc, if_neg hcomplete, hf, if_neg hrest]
    rw [intoField_array harray, hinner _ rfl]
  | @unsized element _ _ size hsize h =>
    refine .at_once fun depth host ht => ?_
    unfold navigateWithin navigateFrom
    rw [ht]
    dsimp only
    rw [sizing_eq_ok hacyclic, (measures_iff hacyclic).mp hsize, ok_bind, h]
    rfl
  | overflow hsize hpos hover =>
    refine .at_once fun depth host ht => ?_
    rw [navigateWithin_array hacyclic ht hsize hpos, if_pos hover]
  | element hsize hpos hword hindex =>
    refine .at_once fun depth host ht => ?_
    rw [navigateWithin_array hacyclic ht hsize hpos, if_neg hword, hindex, if_pos rfl]
    rfl
  | inElement hsize hpos hword hindex hrest _ ih =>
    refine ih.after fun depth host ht hinner => ?_
    rw [navigateWithin_array hacyclic ht hsize hpos, if_neg hword, hindex, if_neg hrest,
      hinner _ rfl]
  | whole harray hkey =>
    refine .at_once fun depth host ht => ?_
    rw [navigateWithin_scalar ht harray hkey, if_pos rfl]
  | scalar harray hkey hbytes =>
    refine .at_once fun depth host ht => ?_
    rw [navigateWithin_scalar ht harray hkey, if_neg hbytes]

/-- There is one outcome. -/
theorem Follows.unique (hacyclic : g.Acyclic) {outcome outcome' : Except Fault Path}
    (h : g.Follows host bytes outcome) (h' : g.Follows host bytes outcome') :
    outcome = outcome' := by
  obtain ⟨least, hpath⟩ := Followed.settles hacyclic h
  obtain ⟨least', hpath'⟩ := Followed.settles hacyclic h'
  rw [← hpath (max least least') host (Nat.le_max_left _ _) rfl,
    hpath' (max least least') host (Nat.le_max_right _ _) rfl]

end FactLift.Globals
