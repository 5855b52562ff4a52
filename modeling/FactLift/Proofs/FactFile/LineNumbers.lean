import FactLift.Proofs.FactFile.Check
import FactLift.Proofs.FactFile.Heading

/-! Line numbers play no part in what is read.

Where lines have the same text, sections that differ in their numbers are read alike
(`readSections_alike`): both up to the end, or both up to the same section, with the same error but
for its line. What has been read is then the same but for the lines that it was read from, and for
the log; the program has neither (`Draft.Same.program`). -/

namespace FactLift

open C

/-- An error without the line that it was found at. -/
def Error.unplaced : Error → Error
  | .parse _ reason => .parse 0 reason
  | e => e

namespace FactFile

/-! ### Outcomes that are alike -/

/-- Two values that are related, or the same error but for its line. -/
inductive Alike {α β : Type} (R : α → β → Prop) : Except Error α → Except Error β → Prop
  | ok {a : α} {b : β} (h : R a b) : Alike R (.ok a) (.ok b)
  | error {e e' : Error} (h : e.unplaced = e'.unplaced) : Alike R (.error e) (.error e')

namespace Alike

variable {α β γ δ : Type} {R : α → β → Prop} {S : γ → δ → Prop}

theorem eq_ok {x y : Except Error α} (h : Alike Eq x y) {a : α} (hx : x = .ok a) : y = .ok a := by
  cases h with
  | ok h => rw [← h, hx]
  | error => cases hx

theorem bind {x : Except Error α} {y : Except Error β} {f : α → Except Error γ}
    {g : β → Except Error δ} (hxy : Alike R x y) (hfg : ∀ a b, R a b → Alike S (f a) (g b)) :
    Alike S (x >>= f) (y >>= g) := by
  cases hxy with
  | ok h => exact hfg _ _ h
  | error h => exact .error h

/-- What follows is the same for the same value. -/
theorem bind_eq {x y : Except Error α} {f : α → Except Error γ} {g : α → Except Error δ}
    (hxy : Alike Eq x y) (hfg : ∀ a, Alike S (f a) (g a)) : Alike S (x >>= f) (y >>= g) :=
  hxy.bind fun a _ h => h ▸ hfg a

theorem map {x y : Except Error α} (h : Alike Eq x y) (f : α → γ) :
    Alike Eq (f <$> x) (f <$> y) := by
  cases h with
  | ok h => exact .ok (congrArg f h)
  | error h => exact .error h

end Alike

def SameTexts (body body' : List Line) : Prop :=
  List.Forall₂ (fun l l' => l.text = l'.text) body body'

section Lists

variable {α β γ : Type} {T : α → β → Prop} {as : List α} {bs : List β}

/-- Lists that are read to the same values. -/
theorem Alike.mapM {f : α → Except Error γ} {g : β → Except Error γ} (hab : List.Forall₂ T as bs)
    (hfg : ∀ a b, T a b → Alike Eq (f a) (g b)) : Alike Eq (as.mapM f) (bs.mapM g) := by
  induction hab with
  | nil => exact .ok rfl
  | cons h _ ih =>
    rw [List.mapM_cons, List.mapM_cons]
    exact (hfg _ _ h).bind_eq fun _ => ih.bind_eq fun _ => .ok rfl

theorem Alike.foldlM {f : γ → α → Except Error γ} {g : γ → β → Except Error γ} {c : γ}
    (hab : List.Forall₂ T as bs) (hfg : ∀ c a b, T a b → Alike Eq (f c a) (g c b)) :
    Alike Eq (as.foldlM f c) (bs.foldlM g c) := by
  induction hab generalizing c with
  | nil => exact .ok rfl
  | cons h _ ih =>
    rw [List.foldlM_cons, List.foldlM_cons]
    exact (hfg c _ _ h).bind_eq fun _ => ih

/-- Words that are read to the same values. -/
theorem Alike.mapM_words {f g : String → Except Error γ} (words : List String)
    (hfg : ∀ word, Alike Eq (f word) (g word)) : Alike Eq (words.mapM f) (words.mapM g) :=
  .mapM (List.forall₂_same.mpr fun word _ => (rfl : word = word)) fun word _ h => h ▸ hfg word

end Lists

/-! ### Items -/

section Items

variable (n n' : Nat) (types : List Ty) (word : String)

theorem readInt_alike : Alike Eq (readInt n word) (readInt n' word) := by
  unfold readInt
  split
  · exact .ok rfl
  · exact .error rfl

theorem readAddress_alike : Alike Eq (readAddress n word) (readAddress n' word) := by
  refine (readInt_alike n n' word).bind_eq fun v => ?_
  split
  · exact .error rfl
  · exact .ok rfl

theorem readIndex_alike : Alike Eq (readIndex n word) (readIndex n' word) := by
  refine (readInt_alike n n' word).bind_eq fun v => ?_
  split
  · exact .error rfl
  · exact .ok rfl

theorem readContent_alike (cs : List Char) : Alike Eq (readContent n cs) (readContent n' cs) := by
  unfold readContent
  split
  · exact .error rfl
  · exact (Alike.mapM_words _ (readInt_alike n n')).bind_eq fun args => .ok rfl

theorem readTypeRef_alike : Alike Eq (readTypeRef types n word) (readTypeRef types n' word) := by
  refine (readIndex_alike n n' word).bind_eq fun index => ?_
  split
  · exact .error rfl
  · split
    · exact .ok rfl
    · exact .error rfl

theorem readIntKind_alike : Alike Eq (readIntKind n word) (readIntKind n' word) := by
  unfold readIntKind
  split
  · exact .ok rfl
  · exact .error rfl

theorem readFloatKind_alike : Alike Eq (readFloatKind n word) (readFloatKind n' word) := by
  unfold readFloatKind
  split
  · exact .ok rfl
  · exact .error rfl

theorem readParam_alike : Alike Eq (readParam types n word) (readParam types n' word) := by
  unfold readParam
  split
  · exact .error rfl
  · exact (readTypeRef_alike n n' types _).bind_eq fun t => .ok rfl

theorem readType_alike (words : List String) :
    Alike Eq (readType types n words) (readType types n' words) := by
  unfold readType
  split
  case h_1 => exact .ok rfl
  case h_2 k => exact (readIntKind_alike n n' k).bind_eq fun _ => .ok rfl
  case h_3 k => exact (readFloatKind_alike n n' k).bind_eq fun _ => .ok rfl
  case h_4 t => exact (readTypeRef_alike n n' types t).bind_eq fun _ => .ok rfl
  case h_5 t => exact (readTypeRef_alike n n' types t).bind_eq fun _ => .ok rfl
  case h_6 t length =>
    exact (readInt_alike n n' length).bind_eq fun _ =>
      (readTypeRef_alike n n' types t).bind_eq fun _ => .ok rfl
  case h_7 => exact .ok rfl
  case h_8 key name => exact (readIndex_alike n n' key).bind_eq fun _ => .ok rfl
  case h_9 name k => exact (readIntKind_alike n n' k).bind_eq fun _ => .ok rfl
  case h_10 result rest =>
    exact (Alike.mapM_words _ (readParam_alike n n' types)).bind_eq fun _ =>
      (readTypeRef_alike n n' types result).bind_eq fun _ => .ok rfl
  case h_11 => exact .error rfl

end Items

/-! ### Lines -/

/-- The index and the content on a line of a table. -/
def recordOn (l : Line) : Except Error (Nat × Content) :=
  match Text.splitOnce ':' l.text with
  | none => .error (.parse l.number "expected `<index>: <tags> | <args>`")
  | some (index, content) => do
    let index ← readIndex l.number (String.ofList (Text.trim index))
    let content ← readContent l.number content
    return (index, content)

/-- What is on the line does not depend on the table that it is loaded into. -/
theorem readRecord_eq (t : Table) (l : Line) :
    readRecord t l = recordOn l >>= fun (index, content) =>
      (t.insertAt index content).mapError fun e => .parse l.number e.message := by
  unfold readRecord recordOn
  cases Text.splitOnce ':' l.text with
  | none => rfl
  | some parts =>
    simp only [bind_assoc, pure_bind]
    refine bind_congr fun index => bind_congr fun content => ?_
    cases t.insertAt index content <;> rfl

section Lines

variable (types : List Ty) {l l' : Line} (h : l.text = l'.text)

theorem Line.words_eq (h : l.text = l'.text) : l.words = l'.words := by
  rw [words, words, h]

theorem Line.string_eq (h : l.text = l'.text) : l.string = l'.string := by
  rw [string, string, h]

include h

theorem readTypedef_alike : Alike Eq (readTypedef types l) (readTypedef types l') := by
  unfold readTypedef
  rw [Line.words_eq h]
  split
  · exact (readTypeRef_alike _ _ types _).bind_eq fun _ => .ok rfl
  · exact .error rfl

theorem readField_alike : Alike Eq (readField types l) (readField types l') := by
  unfold readField
  rw [Line.words_eq h]
  split
  · refine (readTypeRef_alike _ _ types _).bind_eq fun _ => ?_
    dsimp only
    split
    · exact .ok rfl
    · exact ((readInt_alike _ _ _).map some).bind_eq fun _ => .ok rfl
  · exact .error rfl

theorem readGlobal_alike : Alike Eq (readGlobal types l) (readGlobal types l') := by
  have htype (word : String) : Alike Eq (readOptionalType types l.number word)
      (readOptionalType types l'.number word) := by
    unfold readOptionalType
    split
    · exact .ok rfl
    · exact (readTypeRef_alike _ _ types word).map some
  unfold readGlobal
  rw [Line.words_eq h]
  split
  · exact (htype _).bind_eq fun _ => .ok rfl
  · exact (readAddress_alike _ _ _).bind_eq fun _ => (htype _).bind_eq fun _ => .ok rfl
  · exact .error rfl

theorem readFormal_alike : Alike Eq (readFormal types l) (readFormal types l') := by
  unfold readFormal
  rw [Line.words_eq h]
  split
  · exact (readTypeRef_alike _ _ types _).bind_eq fun _ => .ok rfl
  · exact (readInt_alike _ _ _).bind_eq fun _ =>
      (readTypeRef_alike _ _ types _).bind_eq fun _ => .ok rfl
  · exact .error rfl

theorem recordOn_alike : Alike Eq (recordOn l) (recordOn l') := by
  unfold recordOn
  rw [h]
  split
  · exact .error rfl
  · exact (readIndex_alike _ _ _).bind_eq fun _ =>
      (readContent_alike _ _ _).bind_eq fun _ => .ok rfl

theorem readRecord_alike (t : Table) : Alike Eq (readRecord t l) (readRecord t l') := by
  rw [readRecord_eq, readRecord_eq]
  refine (recordOn_alike h).bind_eq fun (i, c) => ?_
  dsimp only
  cases t.insertAt i c with
  | ok t' => exact .ok rfl
  | error e => exact .error rfl

/-- An instruction without the line that it was read from. -/
def DraftInstruction.unplaced (i : DraftInstruction) : DraftInstruction :=
  { i with line := 0 }

theorem readInstruction_alike :
    Alike (fun i i' => i.unplaced = i'.unplaced) (readInstruction l) (readInstruction l') := by
  unfold readInstruction
  rw [h]
  split
  · exact .error rfl
  · split
    · exact .error rfl
    · exact (readAddress_alike _ _ _).bind_eq fun _ => (readAddress_alike _ _ _).bind_eq fun _ =>
        (readContent_alike _ _ _).bind_eq fun _ =>
          (readContent_alike _ _ _).bind_eq fun _ => .ok rfl

end Lines

/-! ### Functions -/

/-- A function without the lines that it was read from. -/
def DraftFunction.unplaced (f : DraftFunction) : DraftFunction :=
  { f with line := 0, instructions := f.instructions.map DraftInstruction.unplaced }

section Functions

variable {f f' : DraftFunction} {body body' : List Line}

theorem readTable_alike (n n' : Nat) (name : String) (hf : f.unplaced = f'.unplaced)
    (hbody : SameTexts body body') :
    Alike (fun g g' => g.unplaced = g'.unplaced) (readTable f n name body)
      (readTable f' n' name body') := by
  have hdictionary : f.dictionary = f'.dictionary := congrArg (·.dictionary) hf
  have hrecords (t : Table) : Alike Eq (body.foldlM readRecord t) (body'.foldlM readRecord t) :=
    .foldlM hbody fun t _ _ h => readRecord_alike h t
  unfold readTable
  split
  · refine (hrecords _).bind_eq fun t => .ok ?_
    exact congrArg (fun g : DraftFunction => { g with flows := some t }) hf
  · split
    · exact .error rfl
    next t _ =>
      rw [hdictionary]
      refine (hrecords _).bind_eq fun table => .ok ?_
      exact congrArg (fun g : DraftFunction =>
        { g with dictionary := f'.dictionary.setTable t table }) hf

/-- Instructions in a row. -/
theorem readInstructions_alike (hbody : SameTexts body body') :
    Alike (fun is is' => is.map DraftInstruction.unplaced = is'.map DraftInstruction.unplaced)
      (body.mapM readInstruction) (body'.mapM readInstruction) := by
  induction hbody with
  | nil => exact .ok rfl
  | cons h _ ih =>
    rw [List.mapM_cons, List.mapM_cons]
    refine (readInstruction_alike h).bind fun i i' hi => ih.bind fun is is' his => .ok ?_
    rw [List.map_cons, List.map_cons, hi, his]

theorem DraftFunction.check_unplaced (f : DraftFunction) : f.unplaced.check.1 = f.check.1 := by
  rw [check_fst, check_fst]
  simp only [unplaced, List.zipIdx_map, List.mapM_map]
  rfl

end Functions

/-! ### Sections -/

/-- The same has been read, but for the lines that it was read from and for the log. -/
structure Draft.Same (d d' : Draft) : Prop where
  name : d.name = d'.name
  globals : d.globals = d'.globals
  strings : d.strings = d'.strings
  types : d.types = d'.types
  functions : d.functions = d'.functions
  rejected : d.rejected = d'.rejected
  current : d.current.map DraftFunction.unplaced = d'.current.map DraftFunction.unplaced

/-- Sections with the same texts. -/
structure Section.Same (s s' : Section) : Prop where
  header : s.header.text = s'.header.text
  body : SameTexts s.body s'.body

variable {d d' : Draft} {s s' : Section}

/-- Sections with the same texts are of the same kind. -/
theorem Section.Same.heading (h : s.Same s') : s.heading = s'.heading := by
  rw [Section.heading, Section.heading, Line.words_eq h.header]

theorem Section.Same.startsFunction (h : s.Same s') : s.startsFunction = s'.startsFunction := by
  rw [Section.startsFunction, Section.startsFunction, Line.words_eq h.header]

namespace Draft.Same

theorem currentFunction_alike (h : d.Same d') (n n' : Nat) (header : String) :
    Alike (fun f f' => f.unplaced = f'.unplaced) (d.currentFunction n header)
      (d'.currentFunction n' header) := by
  have hcurrent := h.current
  unfold currentFunction
  cases hd : d.current <;> cases hd' : d'.current <;> simp only [hd, hd'] at hcurrent ⊢
  · exact .error rfl
  · cases hcurrent
  · cases hcurrent
  · exact .ok (Option.some.inj hcurrent)

theorem addComposite_alike (h : d.Same d') (n n' : Nat) (c : Composite) :
    Alike Draft.Same (d.addComposite n c) (d'.addComposite n' c) := by
  unfold addComposite
  rw [h.globals]
  split
  · exact .error rfl
  · split
    · exact .ok { h with globals := rfl }
    · exact .ok { h with globals := rfl }

/-- Lines that are read by the types so far. -/
theorem mapM_alike (h : d.Same d') {body body' : List Line} (hbody : SameTexts body body')
    {α : Type} {read : List Ty → Line → Except Error α}
    (hread : ∀ types l l', l.text = l'.text → Alike Eq (read types l) (read types l')) :
    Alike Eq (body.mapM (read d.types)) (body'.mapM (read d'.types)) := by
  rw [h.types]
  exact .mapM hbody (hread d'.types)

/-- **The step.** -/
theorem readSection_alike (h : d.Same d') (hs : s.Same s') :
    Alike Draft.Same (readSection d s) (readSection d' s') := by
  rw [readSection_eq, readSection_eq, hs.heading]
  cases s'.heading with
  | program name => exact .ok { h with name := rfl }
  | strings =>
    have hstrings : s.body.map Line.string = s'.body.map Line.string := by
      rw [← List.forall₂_eq_eq_eq, List.forall₂_map_left_iff, List.forall₂_map_right_iff]
      exact hs.body.imp fun _ _ => Line.string_eq
    exact .ok { h with strings := by rw [h.strings, hstrings] }
  | types =>
    have htypes : Alike Eq (readTypes d.types s.body) (readTypes d'.types s'.body) := by
      rw [h.types]
      refine .foldlM hs.body fun types l l' hl => ?_
      rw [Line.words_eq hl]
      exact (readType_alike _ _ types _).bind_eq fun _ => .ok rfl
    exact htypes.bind_eq fun _ => .ok { h with types := rfl }
  | typedefs =>
    refine (h.mapM_alike hs.body fun types _ _ => readTypedef_alike types).bind_eq fun _ => ?_
    exact .ok { h with globals := by rw [h.globals] }
  | composite key name rest =>
    have hmark (n n' : Nat) : Alike Eq (readUnionMark n rest) (readUnionMark n' rest) := by
      unfold readUnionMark
      split
      · exact .ok rfl
      · exact .ok rfl
      · exact .error rfl
    exact (hmark _ _).bind_eq fun _ => (readIndex_alike _ _ key).bind_eq fun _ =>
      (h.mapM_alike hs.body fun types _ _ => readField_alike types).bind_eq fun _ =>
        h.addComposite_alike _ _ _
  | globals =>
    refine (h.mapM_alike hs.body fun types _ _ => readGlobal_alike types).bind_eq fun _ => ?_
    exact .ok { h with globals := by rw [h.globals] }
  | function name address =>
    refine (readAddress_alike _ _ address).bind_eq fun _ =>
      (h.mapM_alike hs.body fun types _ _ => readFormal_alike types).bind_eq fun _ => ?_
    exact .ok { h with current := rfl }
  | table name =>
    refine (h.currentFunction_alike _ _ _).bind fun f f' hf =>
      (readTable_alike _ _ name hf hs.body).bind fun g g' hg => ?_
    exact .ok { h with current := congrArg some hg }
  | instructions =>
    refine (h.currentFunction_alike _ _ _).bind fun f f' hf =>
      (readInstructions_alike hs.body).bind fun is is' his => ?_
    refine .ok { h with current := congrArg some ?_ }
    have hmore := congrArg (fun g : DraftFunction =>
      { g with instructions := g.instructions ++ is.map DraftInstruction.unplaced }) hf
    rw [his] at hmore
    simpa [DraftFunction.unplaced, his] using hmore
  | unknown =>
    dsimp only [readUnder]
    rw [Line.string_eq hs.header]
    exact .error rfl

/-- What does not depend on the lines is the same for the function that is being read. -/
theorem filterMap_current (h : d.Same d') {α : Type} {g : DraftFunction → Option α}
    (hg : ∀ f, g f.unplaced = g f) :
    d.current.toList.filterMap g = d'.current.toList.filterMap g := by
  have hunplaced (current : Option DraftFunction) : current.toList.filterMap g =
      (current.map DraftFunction.unplaced).toList.filterMap g := by
    cases current <;> simp [List.filterMap_cons, hg]
  rw [hunplaced, h.current, ← hunplaced]

theorem close (h : d.Same d') : d.close.Same d'.close := by
  have htaken : ∀ f : DraftFunction, f.unplaced.taken? = f.taken? := by
    intro f
    rw [DraftFunction.taken?, DraftFunction.check_unplaced, DraftFunction.taken?]
  have hsetAside : ∀ f : DraftFunction, f.unplaced.setAside? = f.setAside? := by
    intro f
    rw [DraftFunction.setAside?, DraftFunction.check_unplaced, DraftFunction.setAside?]
    rfl
  rw [d.close_eq, d'.close_eq]
  exact { h with
    functions := by rw [h.functions, h.filterMap_current htaken]
    rejected := by rw [h.rejected, h.filterMap_current hsetAside]
    current := rfl }

/-- The lines and the log do not go into the program. -/
theorem program (h : d.Same d') : d.program = d'.program := by
  unfold Draft.program
  rw [h.name, h.globals, h.strings, h.types, h.functions, h.rejected]

end Draft.Same

/-- **The run.** -/
theorem readSections_alike {ss ss' : List Section} (hss : List.Forall₂ Section.Same ss ss')
    (h : d.Same d') :
    (readSections ss d).1.map Error.unplaced = (readSections ss' d').1.map Error.unplaced ∧
      (readSections ss d).2.Same (readSections ss' d').2 := by
  induction hss generalizing d d' with
  | nil => exact ⟨rfl, h⟩
  | @cons s s' ss ss' hs _ ih =>
    have hmeeting : (d.meeting s).Same (d'.meeting s') := by
      unfold Draft.meeting
      rw [hs.startsFunction]
      split
      · exact h.close
      · exact h
    have hstep := hmeeting.readSection_alike hs
    rw [readSections_cons, readSections_cons]
    generalize readSection (d.meeting s) s = r at hstep ⊢
    generalize readSection (d'.meeting s') s' = r' at hstep ⊢
    cases hstep with
    | ok hsame => exact ih hsame
    | error he => exact ⟨congrArg some he, hmeeting⟩

theorem Draft.same_empty : Draft.Same {} {} :=
  ⟨rfl, rfl, rfl, rfl, rfl, rfl, rfl⟩

/-- A text is loaded as sections with the same lines are read. -/
theorem load_of_same {text : String} {ss : List Section} (hread : readSections ss {} = (none, d))
    (hss : List.Forall₂ Section.Same ss (sections text)) : (load text).1 = .ok d.close.program := by
  obtain ⟨herror, hsame⟩ := readSections_alike hss Draft.same_empty
  rw [hread] at herror hsame
  rw [hsame.close.program]
  exact load_of_read rfl (Option.map_eq_none_iff.mp herror.symm)

/-- Texts with the same lines in their sections are loaded alike. -/
theorem load_alike {text text' : String}
    (h : List.Forall₂ Section.Same (sections text) (sections text')) :
    Alike Eq (load text).1 (load text').1 := by
  obtain ⟨herror, hsame⟩ := readSections_alike h Draft.same_empty
  generalize hread : readSections (sections text) {} = r at herror hsame
  generalize hread' : readSections (sections text') {} = r' at herror hsame
  obtain ⟨e, d⟩ := r
  obtain ⟨e', d'⟩ := r'
  cases e with
  | none =>
    obtain rfl : e' = none := Option.map_eq_none_iff.mp herror.symm
    rw [load_of_read hread rfl, load_of_read hread' rfl]
    exact .ok hsame.close.program
  | some e =>
    obtain ⟨e', rfl, he⟩ := Option.map_eq_some_iff.mp herror.symm
    rw [load_of_error (congrArg Prod.fst hread), load_of_error (congrArg Prod.fst hread')]
    exact .error he.symm

end FactFile

end FactLift
