import FactLift.Proofs.Except
import FactLift.Symbols.Navigate

/-! How many bytes an offset stands for.

`o.Displaces g host d` says that the fields and indices of `o`, followed from a type, are `d` bytes in
all: a field is as far as its composite says, and a constant index counts elements. Type names are
looked through at every step. The path that is found for a byte offset is made of such steps
(`navigate_traverses`), and it stands for that many bytes (`navigate_leads`), counted in words. -/

namespace FactLift

open C

namespace Globals

variable {g : Globals}

/-! ### Looking through type names -/

/-- Looking through enough type names gives a type. -/
def Denotes (g : Globals) (t u : Ty) : Prop :=
  ∃ n, g.resolveWithin n t = u

theorem resolveWithin_resolveWithin (g : Globals) (m n : Nat) (t : Ty) :
    g.resolveWithin n (g.resolveWithin m t) = g.resolveWithin (m + n) t := by
  induction m generalizing t with
  | zero => rw [resolveWithin, Nat.zero_add]
  | succ m ih =>
    rw [Nat.succ_add]
    cases t with
    | named name =>
      cases hname : g.typedefs[name]? with
      | some t => simp only [resolveWithin, hname, ih]
      | none => cases n <;> simp [resolveWithin, hname]
    | _ => cases n <;> rfl

theorem Denotes.trans {t u w : Ty} (h : g.Denotes t u) (h' : g.Denotes u w) : g.Denotes t w := by
  obtain ⟨m, rfl⟩ := h
  obtain ⟨n, rfl⟩ := h'
  exact ⟨m + n, (g.resolveWithin_resolveWithin m n t).symm⟩

theorem Denotes.refl (t : Ty) : g.Denotes t t := ⟨0, rfl⟩

theorem denotes_resolve (g : Globals) (t : Ty) : g.Denotes t (g.resolve t) := ⟨_, rfl⟩

/-- An array type is looked through to once. -/
theorem Denotes.array_unique {t e e' : Ty} {l l' : Option Expr} (h : g.Denotes t (.array e l))
    (h' : g.Denotes t (.array e' l')) : e = e' := by
  have hstop : ∀ n t l, g.resolveWithin n (.array t l) = .array t l := by
    intro n t l
    cases n <;> rfl
  obtain ⟨m, hm⟩ := h
  obtain ⟨n, hn⟩ := h'
  have hboth : g.resolveWithin n (.array e l) = g.resolveWithin m (.array e' l') := by
    rw [← hm, ← hn, resolveWithin_resolveWithin, resolveWithin_resolveWithin, Nat.add_comm]
  rw [hstop, hstop] at hboth
  exact (Ty.array.inj hboth).1

/-- The fields of every composite have different names. -/
def DistinctFields (g : Globals) : Prop :=
  ∀ key c, g.composite? key = some c → (c.fields.map (·.name)).Nodup

end Globals

/-! ### The fields of a composite -/

namespace C.Composite

variable {c : Composite}

theorem mem_place {start : Int64} {f : Field} {placed : List (Int64 × Field)} {x : Int64 × Field}
    (h : x ∈ place start f placed) : x = (start, f) ∨ x ∈ placed := by
  induction placed with
  | nil => exact .inl (List.mem_singleton.mp h)
  | cons y rest ih =>
    unfold place at h
    split at h
    · exact List.mem_cons.mp h
    split at h
    · exact .inr h
    · rcases List.mem_cons.mp h with rfl | h
      · exact .inr List.mem_cons_self
      · exact (ih h).imp_right (List.mem_cons_of_mem _)

/-- The layout has fields of the composite only, at their offsets. -/
theorem mem_layout {start : Int64} {f : Field} (h : (start, f) ∈ c.layout) :
    f ∈ c.fields ∧ f.offset = some start := by
  let Placed (placed : List (Int64 × Field)) : Prop :=
    ∀ start f, (start, f) ∈ placed → f ∈ c.fields ∧ f.offset = some start
  have hplaced : Placed c.layout := by
    refine List.foldlRecOn c.fields _ (fun _ _ h => absurd h List.not_mem_nil) ?_
    intro placed ih f' hf' start f h
    split at h
    next start' hstart =>
      rcases mem_place h with heq | h
      · obtain ⟨rfl, rfl⟩ := Prod.mk.inj heq
        exact ⟨hf', hstart⟩
      · exact ih start f h
    next => exact ih start f h
  exact hplaced start f h

/-- The field that an offset falls into starts where its distance says. -/
theorem fieldAt?_eq_some {offset rest : Int64} {f : Field} (h : c.fieldAt? offset = some (f, rest)) :
    f ∈ c.fields ∧ ∃ start, f.offset = some start ∧ offset = start + rest := by
  unfold fieldAt? at h
  split at h
  · cases h
  · obtain ⟨⟨start, f'⟩, hlast, heq⟩ := Option.map_eq_some_iff.mp h
    obtain ⟨rfl, rfl⟩ := Prod.mk.inj heq
    obtain ⟨hmem, hoffset⟩ := mem_layout ((List.takeWhile_sublist _).mem (List.mem_of_getLast? hlast))
    exact ⟨hmem, start, hoffset, by rw [Int64.add_comm, Int64.sub_add_cancel]⟩

/-- A field is found under its name if no other has it. -/
theorem field?_name (hnames : (c.fields.map (·.name)).Nodup) {f : Field} (hf : f ∈ c.fields) :
    c.field? f.name = some f := by
  unfold field?
  generalize c.fields = fields at *
  induction fields with
  | nil => cases hf
  | cons f' rest ih =>
    obtain ⟨hnew, hrest⟩ := List.nodup_cons.mp hnames
    rcases List.mem_cons.mp hf with rfl | hf
    · rw [List.find?_cons_of_pos (by simp)]
    · have hne : f'.name ≠ f.name := fun h => hnew (List.mem_map.mpr ⟨f, hf, h.symm⟩)
      rw [List.find?_cons_of_neg (by simpa using hne)]
      exact ih hrest hf

end C.Composite

/-! ### Displacement -/

namespace C.Offset

/-- An offset, followed from a type if that is known, is so many bytes. -/
inductive Displaces (g : Globals) : Option Ty → Offset → Int → Prop
  | none (host : Option Ty) : Displaces g host .none 0
  | field {t : Ty} {key : Nat} {type name : String} {c : Composite} {f : Field} {start : Int64}
      {sub : Offset} {d : Int} (ht : g.Denotes t (.composite key type))
      (hc : g.composite? key = some c) (hf : c.field? name = some f)
      (hstart : f.offset = some start) (hsub : Displaces g (some f.type) sub d) :
      Displaces g (some t) (.field name key sub) (start.toInt + d)
  | index {t element : Ty} {length : Option Expr} {size : Nat} {i : Int64} {kind : IntKind}
      {sub : Offset} {d : Int} (ht : g.Denotes t (.array element length))
      (hsize : g.size? element = some size) (hsub : Displaces g (some element) sub d) :
      Displaces g (some t) (.index (.int i kind) sub) (i.toInt * size + d)

namespace Displaces

variable {g : Globals} {o : Offset} {d : Int}

theorem unique {host : Option Ty} {d' : Int} (h : o.Displaces g host d) (h' : o.Displaces g host d') :
    d = d' := by
  induction h generalizing d' with
  | none =>
    cases h'
    rfl
  | field ht hc hf hstart _ ih =>
    cases h' with
    | field ht' hc' hf' hstart' hsub' =>
      obtain rfl := Option.some.inj (hc.symm.trans hc')
      obtain rfl := Option.some.inj (hf.symm.trans hf')
      obtain rfl := Option.some.inj (hstart.symm.trans hstart')
      rw [ih hsub']
  | index ht hsize _ ih =>
    cases h' with
    | index ht' hsize' hsub' =>
      obtain rfl := ht.array_unique ht'
      obtain rfl := Option.some.inj (hsize.symm.trans hsize')
      rw [ih hsub']

/-- A type name may stand in front. -/
theorem through {t u : Ty} (ht : g.Denotes t u) (h : o.Displaces g (some u) d) :
    o.Displaces g (some t) d := by
  cases h with
  | none => exact .none _
  | field hu hc hf hstart hsub => exact .field (ht.trans hu) hc hf hstart hsub
  | index hu hsize hsub => exact .index (ht.trans hu) hsize hsub

end Displaces

end C.Offset

/-! ### Paths -/

namespace Globals

/-- What the path for a byte offset is made of: a stop or a landing, behind fields that the offset
falls into and elements of arrays. Type names are looked through on the way. -/
inductive Traverses (g : Globals) : Ty → Int64 → Path → Prop
  | stuck (host : Ty) (bytes : Int64) (reason : String) : Traverses g host bytes (.stuck reason)
  | landed (t : Ty) : Traverses g t 0 (.landed t)
  | through {host t : Ty} {bytes : Int64} {path : Path} (ht : g.Denotes host t)
      (h : Traverses g t bytes path) : Traverses g host bytes path
  | field {key : Nat} {name : String} {bytes rest : Int64} {c : Composite} {f : Field} {path : Path}
      (hc : g.composite? key = some c) (hf : c.fieldAt? bytes = some (f, rest))
      (h : Traverses g f.type rest path) :
      Traverses g (.composite key name) bytes (.after (.field f.name key) path)
  | element {element : Ty} {length : Option Expr} {bytes : Int64} {size : Nat} {path : Path}
      (hsize : g.elementSize? element = some size)
      (h : Traverses g element (Int64.ofInt (bytes.toInt % (Int64.ofNat size).toInt)) path) :
      Traverses g (.array element length) bytes
        (.after (.index (Int64.ofInt (bytes.toInt / (Int64.ofNat size).toInt))) path)

variable {g : Globals}

theorem intoField_traverses (f : Field) (distance : Int64) {intoArray : Ty → Except Fault Path}
    (harray : ∀ t path, intoArray t = .ok path → g.Traverses t distance path) {path : Path}
    (h : g.intoField f distance intoArray = .ok path) : g.Traverses f.type distance path := by
  refine .through (g.denotes_resolve f.type) ?_
  unfold intoField at h
  split at h
  next key name hf =>
    rw [hf]
    split at h
    next inner rest hinner =>
      obtain ⟨c, hc, hat⟩ := Option.bind_eq_some_iff.mp hinner
      split at h
      next hrest =>
        obtain rfl := Except.ok.inj h
        exact .field hc hat (hrest ▸ .landed inner.type)
      next =>
        obtain rfl := Except.ok.inj h
        exact .stuck ..
    next =>
      obtain rfl := Except.ok.inj h
      exact .stuck ..
  next element length hf =>
    rw [hf]
    exact harray _ _ h
  next =>
    obtain rfl := Except.ok.inj h
    exact .stuck ..

theorem navigateWithin_traverses {depth : Nat} {host : Ty} {bytes : Int64} {path : Path}
    (h : g.navigateWithin depth host bytes = .ok path) : g.Traverses host bytes path := by
  induction depth generalizing host bytes path with
  | zero => cases h
  | succ depth ih =>
    refine .through (g.denotes_resolve host) ?_
    unfold navigateWithin navigateFrom at h
    split at h
    next key name hhost =>
      rw [hhost]
      split at h
      next =>
        obtain rfl := Except.ok.inj h
        exact .stuck ..
      next c hc =>
        split at h
        · obtain rfl := Except.ok.inj h
          exact .stuck ..
        split at h
        next =>
          obtain rfl := Except.ok.inj h
          exact .stuck ..
        next f rest hf =>
          obtain ⟨path, hpath, rfl⟩ := map_eq_ok.mp h
          refine .field hc hf ?_
          split at hpath
          next hrest =>
            obtain rfl := Except.ok.inj hpath
            exact hrest ▸ .landed f.type
          next => exact intoField_traverses f rest (fun t path => ih) hpath
    next element length hhost =>
      rw [hhost]
      obtain ⟨size, hsizing, h⟩ := bind_eq_ok.mp h
      split at h
      next =>
        obtain rfl := Except.ok.inj h
        exact .stuck ..
      next size hsize =>
        dsimp only at h
        split at h
        · cases h
        obtain ⟨path, hpath, rfl⟩ := map_eq_ok.mp h
        refine .element (by rw [elementSize?, size?_of_sizing hsizing, hsize]) ?_
        split at hpath
        next hrest =>
          obtain rfl := Except.ok.inj hpath
          exact hrest ▸ .landed element
        next => exact ih hpath
    next =>
      split at h
      next hbytes =>
        obtain rfl := Except.ok.inj h
        exact hbytes ▸ .landed _
      next =>
        obtain rfl := Except.ok.inj h
        exact .stuck ..

/-- **The path, step by step.** -/
theorem navigate_traverses (host : Ty) (bytes : Int64) :
    g.Traverses host bytes (g.navigate host bytes) := by
  unfold navigate
  cases h : g.navigation host bytes with
  | error fault => exact .stuck ..
  | ok path => exact navigateWithin_traverses h

end Globals

/-- Going on from where a path lands, one is so many bytes further into the type that it starts
from. -/
def Path.Leads (g : Globals) (path : Path) (host : Ty) (bytes : Int64) : Prop :=
  ∀ landing, path.landing = .ok landing → ∀ inner d, Offset.Displaces g (some landing) inner d →
    ∃ d', (path.wrap inner).Displaces g (some host) d' ∧ Int64.ofInt d' = bytes + Int64.ofInt d

namespace Path.Leads

variable {g : Globals} {path : Path} {host t : Ty} {bytes : Int64}

theorem stuck (reason : String) : (Path.stuck reason).Leads g host bytes :=
  fun _ h => nomatch h

theorem landed (t : Ty) : (Path.landed t).Leads g t 0 := by
  rintro landing h inner d hinner
  obtain rfl : t = landing := Except.ok.inj h
  exact ⟨d, hinner, (Int64.zero_add _).symm⟩

theorem through (ht : g.Denotes host t) (h : path.Leads g t bytes) : path.Leads g host bytes := by
  intro landing hlanding inner d hinner
  obtain ⟨d', hd', hbytes⟩ := h landing hlanding inner d hinner
  exact ⟨d', hd'.through ht, hbytes⟩

theorem field {key : Nat} {type name : String} {c : Composite} {f : Field} {start : Int64}
    (hc : g.composite? key = some c) (hf : c.field? name = some f) (hstart : f.offset = some start)
    (h : path.Leads g f.type bytes) :
    (Path.after (.field name key) path).Leads g (.composite key type) (start + bytes) := by
  intro landing hlanding inner d hinner
  obtain ⟨d', hd', hbytes⟩ := h landing hlanding inner d hinner
  refine ⟨start.toInt + d', .field (.refl _) hc hf hstart hd', ?_⟩
  rw [Int64.ofInt_add, Int64.ofInt_toInt, hbytes, Int64.add_assoc]

theorem index {element : Ty} {size : Nat} (h : path.Leads g element bytes) (length : Option Expr)
    (i : Int64) (hsize : g.size? element = some size) :
    (Path.after (.index i) path).Leads g (.array element length)
      (i * Int64.ofNat size + bytes) := by
  intro landing hlanding inner d hinner
  obtain ⟨d', hd', hbytes⟩ := h landing hlanding inner d hinner
  refine ⟨i.toInt * size + d', .index (.refl _) hsize hd', ?_⟩
  rw [Int64.ofInt_add, Int64.ofInt_mul, Int64.ofInt_toInt, Int64.ofInt_eq_ofNat, hbytes,
    Int64.add_assoc]

end Path.Leads

namespace Globals

variable {g : Globals}

/-- An index and what remains are the bytes that were divided. -/
theorem index_add_rest (bytes : Int64) (size : Nat) :
    Int64.ofInt (bytes.toInt / (Int64.ofNat size).toInt) * Int64.ofNat size +
      Int64.ofInt (bytes.toInt % (Int64.ofNat size).toInt) = bytes := by
  have hsize : Int64.ofInt (Int64.ofNat size).toInt = Int64.ofNat size := Int64.ofInt_toInt _
  rw [← hsize, ← Int64.ofInt_mul, ← Int64.ofInt_add, hsize, Int.ediv_mul_add_emod,
    Int64.ofInt_toInt]

theorem elementSize?_eq_some_iff {element : Ty} {size : Nat} :
    g.elementSize? element = some size ↔ g.size? element = some size ∧ 0 < size := by
  simp [elementSize?, Option.filter_eq_some_iff]

theorem Traverses.leads (hg : g.DistinctFields) {host : Ty} {bytes : Int64} {path : Path}
    (h : g.Traverses host bytes path) : path.Leads g host bytes := by
  induction h with
  | stuck => exact .stuck _
  | landed t => exact .landed t
  | through ht _ ih => exact ih.through ht
  | @field key _ _ _ c _ _ hc hf _ ih =>
    obtain ⟨hmem, start, hstart, rfl⟩ := Composite.fieldAt?_eq_some hf
    exact .field hc (Composite.field?_name (hg key c hc) hmem) hstart ih
  | @element _ length bytes size _ hsize _ ih =>
    have hindex := ih.index length (Int64.ofInt (bytes.toInt / (Int64.ofNat size).toInt))
      (elementSize?_eq_some_iff.mp hsize).1
    rwa [index_add_rest] at hindex

/-- **The path.** What is found at a byte offset is that many bytes into the type. -/
theorem navigate_leads (hg : g.DistinctFields) (host : Ty) (bytes : Int64) :
    (g.navigate host bytes).Leads g host bytes :=
  (navigate_traverses host bytes).leads hg

end Globals

end FactLift
