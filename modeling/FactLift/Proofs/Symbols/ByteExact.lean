import FactLift.Proofs.Symbols.Displacement
import Mathlib.Algebra.Group.Int.Defs
import Mathlib.Algebra.Group.Nat.Defs

/-! Byte offsets that are followed without wrapping around.

A path stands for its byte offset in words (`navigate_leads`). It does so in integers as well where
no field starts before its composite and no type that stands inside the host has 2 ^ 63 bytes or
more (`navigate_exact`): a distance into a field is then a difference of two distances, and an index and
its rest are those of the division. What stands inside the landing stands inside the host, so the
next offset can go on from there. -/

namespace FactLift

open C

namespace Globals

variable {g : Globals}

/-- No field starts before its composite. -/
def ForwardFields (g : Globals) : Prop :=
  ∀ key c, g.composite? key = some c → ∀ f ∈ c.fields, ∀ start, f.offset = some start → 0 ≤ start

/-! ### What stands inside a type -/

/-- A type stands inside another by value: it is the other one, an element of it or a field of it,
or stands inside one of these. Type names are looked through. -/
inductive Inside (g : Globals) (t : Ty) : Ty → Prop
  | self : Inside g t t
  | named {u host : Ty} (hu : g.Denotes host u) (h : Inside g t u) : Inside g t host
  | element {element : Ty} {length : Option Expr} (h : Inside g t element) :
      Inside g t (.array element length)
  | field {key : Nat} {name : String} {c : Composite} {f : Field} (hc : g.composite? key = some c)
      (hf : f ∈ c.fields) (h : Inside g t f.type) : Inside g t (.composite key name)

theorem Inside.trans {t u host : Ty} (h : g.Inside t u) (h' : g.Inside u host) :
    g.Inside t host := by
  induction h' with
  | self => exact h
  | named hu _ ih => exact .named hu ih
  | element _ ih => exact .element ih
  | field hc hf _ ih => exact .field hc hf ih

/-- No type that stands inside a type has so many bytes that they do not fit into a word. -/
def SizesFit (g : Globals) (host : Ty) : Prop :=
  ∀ t n, g.Inside t host → g.size? t = some n → n < 2 ^ 63

theorem SizesFit.inside {t host : Ty} (h : g.SizesFit host) (ht : g.Inside t host) :
    g.SizesFit t :=
  fun u n hu => h u n (hu.trans ht)

end Globals

/-- The distance into a field is a difference of integers. -/
theorem C.Composite.fieldAt?_exact {c : Composite}
    (hc : ∀ f ∈ c.fields, ∀ start, f.offset = some start → 0 ≤ start) {offset rest : Int64}
    {f : Field} (h : c.fieldAt? offset = some (f, rest)) :
    f ∈ c.fields ∧ ∃ start, f.offset = some start ∧ offset.toInt = start.toInt + rest.toInt := by
  unfold fieldAt? at h
  split at h
  · cases h
  · obtain ⟨⟨start, f'⟩, hlast, heq⟩ := Option.map_eq_some_iff.mp h
    obtain ⟨rfl, rfl⟩ := Prod.mk.inj heq
    have htaken := List.mem_of_getLast? hlast
    have hle : start ≤ offset := by
      simpa using List.all_eq_true.mp List.all_takeWhile _ htaken
    obtain ⟨hmem, hstart⟩ := mem_layout ((List.takeWhile_sublist _).mem htaken)
    refine ⟨hmem, start, hstart, ?_⟩
    rw [Int64.toInt_sub_of_le offset start (hc f' hmem start hstart) hle]
    omega

/-! ### Paths -/

/-- Going on from where a path lands, one is exactly so many bytes further into the type that it
starts from. The landing stands inside that type. -/
def Path.LeadsExactly (g : Globals) (path : Path) (host : Ty) (bytes : Int) : Prop :=
  ∀ landing, path.landing = .ok landing → g.Inside landing host ∧
    ∀ inner d, Offset.Displaces g (some landing) inner d →
      (path.wrap inner).Displaces g (some host) (bytes + d)

namespace Path.LeadsExactly

variable {g : Globals} {path : Path} {host t : Ty} {bytes : Int}

theorem stuck (reason : String) : (Path.stuck reason).LeadsExactly g host bytes :=
  fun _ h => nomatch h

theorem landed (t : Ty) : (Path.landed t).LeadsExactly g t 0 := by
  intro landing h
  obtain rfl : t = landing := Except.ok.inj h
  refine ⟨.self, fun inner d hinner => ?_⟩
  rwa [Int.zero_add]

theorem through (ht : g.Denotes host t) (h : path.LeadsExactly g t bytes) :
    path.LeadsExactly g host bytes := by
  intro landing hlanding
  obtain ⟨hinside, hleads⟩ := h landing hlanding
  exact ⟨.named ht hinside, fun inner d hinner => (hleads inner d hinner).through ht⟩

theorem field {key : Nat} {type name : String} {c : Composite} {f : Field} {start : Int64}
    (hc : g.composite? key = some c) (hmem : f ∈ c.fields) (hf : c.field? name = some f)
    (hstart : f.offset = some start) (h : path.LeadsExactly g f.type bytes) :
    (Path.after (.field name key) path).LeadsExactly g (.composite key type)
      (start.toInt + bytes) := by
  intro landing hlanding
  obtain ⟨hinside, hleads⟩ := h landing hlanding
  refine ⟨.field hc hmem hinside, fun inner d hinner => ?_⟩
  rw [Int.add_assoc]
  exact .field (.refl _) hc hf hstart (hleads inner d hinner)

theorem index {element : Ty} {size : Nat} (h : path.LeadsExactly g element bytes)
    (length : Option Expr) (i : Int64) (hsize : g.size? element = some size) :
    (Path.after (.index i) path).LeadsExactly g (.array element length)
      (i.toInt * size + bytes) := by
  intro landing hlanding
  obtain ⟨hinside, hleads⟩ := h landing hlanding
  refine ⟨.element hinside, fun inner d hinner => ?_⟩
  rw [Int.add_assoc]
  exact .index (.refl _) hsize (hleads inner d hinner)

end Path.LeadsExactly

namespace Globals

variable {g : Globals}

/-- The quotient of a word by a size is in the range of words. -/
theorem ediv_range (bytes : Int64) {size : Nat} (hpos : 0 < size) :
    -2 ^ 63 ≤ bytes.toInt / size ∧ bytes.toInt / size < 2 ^ 63 := by
  have hlow := bytes.le_toInt
  have hhigh := bytes.toInt_lt
  have hpos' : (0 : Int) < size := Int.natCast_pos.mpr hpos
  exact ⟨Int.le_ediv_of_mul_le hpos' (by omega), Int.ediv_lt_of_lt_mul hpos' (by omega)⟩

/-- A quotient by a size is a word, and so is what remains. -/
theorem toInt_index_rest (bytes : Int64) {size : Nat} (hpos : 0 < size) (hfits : size < 2 ^ 63) :
    (Int64.ofInt (bytes.toInt / (Int64.ofNat size).toInt)).toInt = bytes.toInt / size ∧
      (Int64.ofInt (bytes.toInt % (Int64.ofNat size).toInt)).toInt = bytes.toInt % size := by
  rw [Int64.toInt_ofNat_of_lt hfits]
  obtain ⟨hlow, hhigh⟩ := ediv_range bytes hpos
  have hrest := Int.emod_nonneg bytes.toInt (b := size) (by omega)
  have hrest' := Int.emod_lt_of_pos bytes.toInt (b := size) (by omega)
  exact ⟨Int64.toInt_ofInt_of_le hlow hhigh, Int64.toInt_ofInt_of_le (by omega) (by omega)⟩

theorem Traverses.exact (hnames : g.DistinctFields) (hforward : g.ForwardFields) {host : Ty}
    {bytes : Int64} {path : Path} (h : g.Traverses host bytes path) (hsizes : g.SizesFit host) :
    path.LeadsExactly g host bytes.toInt := by
  induction h with
  | stuck => exact .stuck _
  | landed t => exact .landed t
  | through ht _ ih => exact (ih (hsizes.inside (.named ht .self))).through ht
  | @field key _ _ _ c f _ hc hf _ ih =>
    obtain ⟨hmem, start, hstart, hbytes⟩ := Composite.fieldAt?_exact (hforward key c hc) hf
    rw [hbytes]
    exact .field hc hmem (Composite.field?_name (hnames key c hc) hmem) hstart
      (ih (hsizes.inside (.field hc hmem .self)))
  | @element element length bytes size _ hfound _ ih =>
    obtain ⟨hsize, hpos⟩ := elementSize?_eq_some_iff.mp hfound
    have hinside : g.SizesFit element := hsizes.inside (.element .self)
    obtain ⟨hindex, hrest⟩ := toInt_index_rest bytes hpos (hinside element size .self hsize)
    have hleads := (ih hinside).index length
      (Int64.ofInt (bytes.toInt / (Int64.ofNat size).toInt)) hsize
    rwa [hindex, hrest, Int.ediv_mul_add_emod] at hleads

/-- **The path, exactly.** What is found at a byte offset is that many bytes into the type. -/
theorem navigate_exact (hnames : g.DistinctFields) (hforward : g.ForwardFields) {host : Ty}
    (hsizes : g.SizesFit host) (bytes : Int64) :
    (g.navigate host bytes).LeadsExactly g host bytes.toInt :=
  (navigate_traverses host bytes).exact hnames hforward hsizes

end Globals

end FactLift
