import FactLift.Proofs.FactFile.Check
import FactLift.Proofs.FactFile.Heading

/-! The functions of a fact file.

The sections of a function are those up to the next section that starts one, whatever else stands
between them. Each function is read from its own sections alone, and goes to one of the two lists of
the program, in the order of the file (`load_functions`). -/

namespace FactLift.FactFile

open C

/-! ### The sections of a function -/

/-- The sections that start functions, each with those up to the next one. -/
def functionGroups : List Section → List (Section × List Section)
  | [] => []
  | s :: rest =>
    if s.startsFunction then (s, rest.takeWhile (!·.startsFunction)) :: functionGroups rest
    else functionGroups rest

theorem length_functionGroups (ss : List Section) :
    (functionGroups ss).length = ss.countP Section.startsFunction := by
  induction ss with
  | nil => rfl
  | cons s rest ih =>
    rw [functionGroups, List.countP_cons]
    split <;> simp [ih]

/-- Reads a section into the function above it. Other sections say nothing about the function. -/
def readOwn (f : DraftFunction) (s : Section) : Except Error DraftFunction :=
  match s.heading with
  | .table name => readTable f s.header.number name s.body
  | .instructions => do
    return { f with instructions := f.instructions ++ (← s.body.mapM readInstruction) }
  | _ => return f

/-- Reads the section that starts a function. -/
def readStart (types : List Ty) (s : Section) : Except Error DraftFunction :=
  match s.heading with
  | .function name address => do
    let address ← readAddress s.header.number address
    let formals ← s.body.mapM (readFormal types)
    return { line := s.header.number, name, address, formals }
  | _ => .error (.parse s.header.number "expected a function")

/-- Reads a function from its own sections. -/
def readFunction (types : List Ty) (g : Section × List Section) : Except Error DraftFunction := do
  g.2.foldlM readOwn (← readStart types g.1)

/-! ### One section -/

variable {d d' : Draft} {s : Section} {ss : List Section}

/-- What a section does to the functions. -/
structure Reads (d : Draft) (s : Section) (d' : Draft) : Prop where
  functions : d'.functions = d.functions
  rejected : d'.rejected = d.rejected
  types : d.types <+: d'.types
  current : if s.startsFunction then some <$> readStart d.types s = .ok d'.current
    else d.current.mapM (readOwn · s) = .ok d'.current

theorem prefix_readTypes {types types' : List Ty} {body : List Line}
    (h : readTypes types body = .ok types') : types <+: types' := by
  unfold readTypes at h
  induction body generalizing types with
  | nil =>
    obtain rfl := ok_inj.mp h
    exact List.prefix_rfl
  | cons l body ih =>
    rw [List.foldlM_cons] at h
    obtain ⟨more, hmore, h⟩ := bind_eq_ok.mp h
    obtain ⟨t, -, ht⟩ := bind_eq_ok.mp hmore
    obtain rfl := ok_inj.mp ht
    exact (List.prefix_append types [t]).trans (ih h)

theorem Draft.addComposite_eq_ok {line : Nat} {c : Composite} (h : d.addComposite line c = .ok d') :
    ∃ globals log, d' = { d with globals, log } := by
  unfold addComposite at h
  split at h
  · cases h
  · split at h <;> obtain rfl := ok_inj.mp h <;> exact ⟨_, _, rfl⟩

theorem Draft.currentFunction_eq_ok {n : Nat} {header : String} {f : DraftFunction} :
    d.currentFunction n header = .ok f ↔ d.current = some f := by
  unfold currentFunction
  cases d.current with
  | none => exact iff_of_false nofun nofun
  | some f' => rw [ok_inj, Option.some.injEq]

/-- Whether sections under the heading say nothing about the function above them. -/
def Heading.isGeneral : Heading → Bool
  | .function _ _ | .table _ | .instructions | .unknown => false
  | _ => true

theorem Reads.of_general (hs : s.heading.isGeneral = true) (htypes : d.types <+: d'.types)
    (hcurrent : d'.current = d.current) (hfunctions : d'.functions = d.functions)
    (hrejected : d'.rejected = d.rejected) : Reads d s d' := by
  have hown : s.startsFunction = false ∧ ∀ f, readOwn f s = .ok f := by
    rw [startsFunction_eq]
    unfold readOwn
    cases hheading : s.heading <;> rw [hheading] at hs <;>
      first | exact ⟨rfl, fun _ => rfl⟩ | cases hs
  refine ⟨hfunctions, hrejected, htypes, ?_⟩
  rw [hown.1, hcurrent]
  cases d.current with
  | none => rfl
  | some f => simp [hown.2]

/-- **The step.** -/
theorem readSection_reads (h : readSection d s = .ok d') : Reads d s d' := by
  rw [readSection_eq] at h
  cases hs : s.heading with
  | program name =>
    rw [hs] at h
    obtain rfl := ok_inj.mp h
    exact .of_general (by rw [hs]; rfl) List.prefix_rfl rfl rfl rfl
  | strings =>
    rw [hs] at h
    obtain rfl := ok_inj.mp h
    exact .of_general (by rw [hs]; rfl) List.prefix_rfl rfl rfl rfl
  | types =>
    rw [hs] at h
    obtain ⟨types, htypes, h⟩ := bind_eq_ok.mp h
    obtain rfl := ok_inj.mp h
    exact .of_general (by rw [hs]; rfl) (prefix_readTypes htypes) rfl rfl rfl
  | typedefs =>
    rw [hs] at h
    obtain ⟨definitions, -, h⟩ := bind_eq_ok.mp h
    obtain rfl := ok_inj.mp h
    exact .of_general (by rw [hs]; rfl) List.prefix_rfl rfl rfl rfl
  | composite key name rest =>
    rw [hs] at h
    obtain ⟨isUnion, -, h⟩ := bind_eq_ok.mp h
    obtain ⟨key, -, h⟩ := bind_eq_ok.mp h
    obtain ⟨fields, -, h⟩ := bind_eq_ok.mp h
    obtain ⟨globals, log, rfl⟩ := Draft.addComposite_eq_ok h
    exact .of_general (by rw [hs]; rfl) List.prefix_rfl rfl rfl rfl
  | globals =>
    rw [hs] at h
    obtain ⟨symbols, -, h⟩ := bind_eq_ok.mp h
    obtain rfl := ok_inj.mp h
    exact .of_general (by rw [hs]; rfl) List.prefix_rfl rfl rfl rfl
  | function name address =>
    rw [hs] at h
    obtain ⟨a, haddress, h⟩ := bind_eq_ok.mp h
    obtain ⟨formals, hformals, h⟩ := bind_eq_ok.mp h
    obtain rfl := ok_inj.mp h
    refine ⟨rfl, rfl, List.prefix_rfl, ?_⟩
    rw [startsFunction_eq, readStart, hs]
    simp [haddress, hformals]
    rfl
  | table name =>
    rw [hs] at h
    obtain ⟨f, hf, h⟩ := bind_eq_ok.mp h
    obtain ⟨g, hg, h⟩ := bind_eq_ok.mp h
    obtain rfl := ok_inj.mp h
    refine ⟨rfl, rfl, List.prefix_rfl, ?_⟩
    rw [startsFunction_eq, hs, Draft.currentFunction_eq_ok.mp hf]
    simp [Heading.startsFunction, readOwn, hs, hg]
  | instructions =>
    rw [hs] at h
    obtain ⟨f, hf, h⟩ := bind_eq_ok.mp h
    obtain ⟨is, his, h⟩ := bind_eq_ok.mp h
    obtain rfl := ok_inj.mp h
    refine ⟨rfl, rfl, List.prefix_rfl, ?_⟩
    rw [startsFunction_eq, hs, Draft.currentFunction_eq_ok.mp hf]
    simp [Heading.startsFunction, readOwn, hs, his]
  | unknown =>
    rw [hs] at h
    cases h

/-! ### More types -/

section MoreTypes

variable {types types' : List Ty} (hmore : types <+: types')
include hmore

theorem readTypeRef_mono {n : Nat} {word : String} {t : Ty}
    (h : readTypeRef types n word = .ok t) : readTypeRef types' n word = .ok t := by
  obtain ⟨more, rfl⟩ := hmore
  obtain ⟨index, hindex, h⟩ := bind_eq_ok.mp h
  refine bind_eq_ok.mpr ⟨index, hindex, ?_⟩
  cases index with
  | zero => exact h
  | succ i =>
    dsimp only at h ⊢
    split at h
    next t' ht =>
      rw [List.getElem?_append_left (List.getElem?_eq_some_iff.mp ht).1, ht]
      exact h
    next => cases h

theorem readFormal_mono {l : Line} {f : Formal} (h : readFormal types l = .ok f) :
    readFormal types' l = .ok f := by
  unfold readFormal at h ⊢
  split at h
  · obtain ⟨t, ht, h⟩ := bind_eq_ok.mp h
    exact bind_eq_ok.mpr ⟨t, readTypeRef_mono hmore ht, h⟩
  · obtain ⟨offset, hoffset, h⟩ := bind_eq_ok.mp h
    obtain ⟨t, ht, h⟩ := bind_eq_ok.mp h
    exact bind_eq_ok.mpr ⟨offset, hoffset, bind_eq_ok.mpr ⟨t, readTypeRef_mono hmore ht, h⟩⟩
  · cases h

/-- A function that was read with some types is read the same with more of them. -/
theorem readStart_mono {f : DraftFunction} (h : readStart types s = .ok f) :
    readStart types' s = .ok f := by
  unfold readStart at h ⊢
  split at h
  · obtain ⟨address, haddress, h⟩ := bind_eq_ok.mp h
    obtain ⟨formals, hformals, h⟩ := bind_eq_ok.mp h
    have hformals' : s.body.mapM (readFormal types') = .ok formals :=
      mapM_eq_ok.mpr ((mapM_eq_ok.mp hformals).imp fun _ _ => readFormal_mono hmore)
    exact bind_eq_ok.mpr ⟨address, haddress, bind_eq_ok.mpr ⟨formals, hformals', h⟩⟩
  · cases h

end MoreTypes

/-! ### All sections -/

theorem types_prefix_of_readSections (h : readSections ss d = (none, d')) :
    d.types <+: d'.types := by
  induction ss generalizing d with
  | nil =>
    obtain rfl := (Prod.mk.inj h).2
    exact List.prefix_rfl
  | cons s ss ih =>
    obtain ⟨d₁, hs, hss⟩ := readSections_cons_eq_ok.mp h
    have htypes : (d.meeting s).types = d.types := by
      unfold Draft.meeting
      split
      · rw [Draft.close_eq]
      · rfl
    exact htypes ▸ (readSection_reads hs).types.trans (ih hss)

theorem option_mapM_bind {α β γ : Type} {f : α → Except Error β} {g : β → Except Error γ}
    {x : Option α} {y : Option β} {z : Option γ} (hf : x.mapM f = .ok y) (hg : y.mapM g = .ok z) :
    (x.mapM fun a => f a >>= g) = .ok z := by
  cases x with
  | none =>
    obtain rfl := ok_inj.mp hf
    exact hg
  | some a =>
    obtain ⟨b, hb, rfl⟩ := map_eq_ok.mp hf
    obtain ⟨c, hc, rfl⟩ := map_eq_ok.mp hg
    exact map_eq_ok.mpr ⟨c, bind_eq_ok.mpr ⟨b, hb, hc⟩, rfl⟩

/-- **The run.** The function that is being read gets the sections up to the next one, and each
function behind it gets its own. They go to the two lists in this order. -/
theorem readSections_functions (h : readSections ss d = (none, d')) :
    ∃ current drafts,
      (d.current.mapM fun f => (ss.takeWhile (!·.startsFunction)).foldlM readOwn f) = .ok current ∧
      (functionGroups ss).mapM (readFunction d'.types) = .ok drafts ∧
      d'.close.functions =
        d.functions ++ (current.toList ++ drafts).filterMap DraftFunction.taken? ∧
      d'.close.rejected =
        d.rejected ++ (current.toList ++ drafts).filterMap DraftFunction.setAside? := by
  induction ss generalizing d with
  | nil =>
    obtain rfl := (Prod.mk.inj h).2
    refine ⟨d.current, [], ?_, rfl, ?_, ?_⟩
    · cases d.current <;> rfl
    · rw [Draft.close_eq, List.append_nil]
    · rw [Draft.close_eq, List.append_nil]
  | cons s ss ih =>
    obtain ⟨d₁, hs, hss⟩ := readSections_cons_eq_ok.mp h
    have hreads := readSection_reads hs
    have hstep := hreads.current
    obtain ⟨current, drafts, hcurrent, hdrafts, hfunctions, hrejected⟩ := ih hss
    rw [hreads.functions] at hfunctions
    rw [hreads.rejected] at hrejected
    unfold Draft.meeting at hstep hfunctions hrejected
    rw [List.takeWhile_cons, functionGroups]
    cases hstarts : s.startsFunction with
    | false =>
      -- The section belongs to the function that is being read, if there is one.
      rw [hstarts] at hstep hfunctions hrejected
      exact ⟨current, drafts, option_mapM_bind hstep hcurrent, hdrafts, hfunctions, hrejected⟩
    | true =>
      -- That function is closed without more sections, and another one takes its place.
      rw [hstarts, if_pos rfl, if_pos rfl, d.close_eq] at hstep
      rw [hstarts, if_pos rfl, d.close_eq] at hfunctions hrejected
      obtain ⟨f₀, hf₀, hcurrent₁⟩ := map_eq_ok.mp hstep
      rw [← hcurrent₁] at hcurrent
      obtain ⟨f, hf, rfl⟩ := map_eq_ok.mp hcurrent
      have htypes : d.types <+: d'.types := types_prefix_of_readSections h
      have hfunction : readFunction d'.types (s, ss.takeWhile (!·.startsFunction)) = .ok f :=
        bind_eq_ok.mpr ⟨f₀, readStart_mono htypes hf₀, hf⟩
      refine ⟨d.current, f :: drafts, ?_, ?_, ?_, ?_⟩
      · cases d.current <;> rfl
      · rw [if_pos rfl, List.mapM_cons, hfunction, hdrafts]
        rfl
      · rw [hfunctions]
        simp
      · rw [hrejected]
        simp

/-! ### Loaded programs -/

theorem startsFunction_headingOf {words : List String} (h : headingOf words ≠ .unknown) :
    (headingOf words).startsFunction = (words.head? == some "FUNCTION") := by
  revert h
  fun_cases headingOf words <;> simp [Heading.startsFunction]

/-- Whether the header starts like that of a function. -/
def Section.isFunction (s : Section) : Bool :=
  s.header.words.head? == some "FUNCTION"

theorem startsFunction_of_readSections (h : readSections ss d = (none, d')) :
    ∀ s ∈ ss, s.startsFunction = s.isFunction := by
  induction ss generalizing d with
  | nil => nofun
  | cons s ss ih =>
    obtain ⟨d₁, hs, hss⟩ := readSections_cons_eq_ok.mp h
    have hknown : headingOf s.header.words ≠ .unknown := by
      intro hunknown
      rw [readSection_eq, Section.heading, hunknown] at hs
      cases hs
    rintro s' (_ | ⟨_, hs'⟩)
    · rw [startsFunction_eq]
      exact startsFunction_headingOf hknown
    · exact ih hss s' hs'

/-- Every function of a program with the sections, in order: what was read of it, and which of the
two lists it went to. -/
structure Accounted (ss : List Section) (p : ProgramFacts) (drafts : List DraftFunction) :
    Prop where
  /-- A header that starts like that of a function is one. -/
  starts : ∀ s ∈ ss, s.startsFunction = s.isFunction
  /-- Each is read from its own sections. -/
  read : (functionGroups ss).mapM (readFunction p.types) = .ok drafts
  functions : p.functions = drafts.filterMap DraftFunction.taken?
  rejected : p.rejected = drafts.filterMap DraftFunction.setAside?
  one : ∀ f ∈ drafts, f.taken?.isSome = !f.setAside?.isSome
  yields : ∀ f ∈ drafts, ∀ facts ∈ f.taken?, f.Yields facts
  refused : ∀ f ∈ drafts, f.setAside?.isSome ↔ f.Refused
  named : ∀ f ∈ drafts, ∀ r ∈ f.setAside?, r.1 = f.name

variable {text : String} {p : ProgramFacts}

/-- **The functions of a loaded program.** -/
theorem load_functions (hload : (load text).1 = .ok p) :
    ∃ drafts, Accounted (sections text) p drafts := by
  obtain ⟨d, hread, rfl⟩ := load_eq_ok.mp hload
  obtain ⟨current, drafts, hcurrent, hdrafts, hfunctions, hrejected⟩ := readSections_functions hread
  obtain rfl : none = current := ok_inj.mp hcurrent
  refine ⟨drafts, ⟨startsFunction_of_readSections hread, ?_, hfunctions, hrejected,
    fun _ _ => DraftFunction.isSome_taken?, fun _ _ _ => DraftFunction.yields_of_taken?,
    fun _ _ => DraftFunction.isSome_setAside?_iff, fun _ _ _ => DraftFunction.name_of_setAside?⟩⟩
  have htypes : d.close.program.types = d.types := by
    rw [d.close_eq]
    rfl
  rw [htypes, hdrafts]

theorem Accounted.length {drafts : List DraftFunction} (h : Accounted ss p drafts) :
    p.functions.length + p.rejected.length = ss.countP Section.isFunction := by
  have hstarts : ss.countP Section.startsFunction = ss.countP Section.isFunction :=
    List.countP_congr fun s hs => by rw [h.starts s hs]
  have hread : (functionGroups ss).length = drafts.length := (mapM_eq_ok.mp h.read).length_eq
  have hone : drafts.countP (·.setAside?.isSome) =
      drafts.countP fun f => decide ¬ f.taken?.isSome = true := by
    refine List.countP_congr fun f hf => ?_
    simp [h.one f hf, Option.isSome_iff_ne_none]
  rw [h.functions, h.rejected, ← hstarts, ← length_functionGroups, hread,
    List.length_filterMap_eq_countP, List.length_filterMap_eq_countP, hone]
  exact (List.length_eq_countP_add_countP _).symm

end FactLift.FactFile
