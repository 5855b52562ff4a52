import FactLift.Proofs.Dictionary.Growth
import FactLift.Proofs.FactFile.LineNumbers
import FactLift.Proofs.FactFile.Numbering
import FactLift.Proofs.Record.Calls

/-! Tables in several pieces.

A table of the dictionary goes on from where it ended, so a section of it may be cut in two behind
any of its records (`readSection_pieces`), and the program stays the same. The table of dataflow
facts starts anew with each section: once cut, its second piece starts at a record that is not the
first one, and the text is not loaded (`load_cutSection`). -/

namespace FactLift

theorem Dictionary.setTable_setTable (d : Dictionary) (name : TableName) (t t' : Table) :
    (d.setTable name t).setTable name t' = d.setTable name t' := by
  cases name <;> rfl

namespace FactFile

variable {d d' : Draft} {name : String}

/-! ### Records -/

theorem readRecord_eq_ok {t t' : Table} {l : Line} : readRecord t l = .ok t' ↔
    ∃ i c, recordOn l = .ok (i, c) ∧ t.insertAt i c = .ok t' := by
  have hinsert (i : Nat) (c : Content) : ((t.insertAt i c).mapError fun e =>
      Error.parse l.number e.message) = .ok t' ↔ t.insertAt i c = .ok t' := by
    cases t.insertAt i c with
    | ok t₁ => exact Iff.rfl
    | error e => exact iff_of_false nofun nofun
  rw [readRecord_eq, bind_eq_ok, Prod.exists]
  simp only [hinsert]

/-- Each record takes the next index. -/
theorem size_of_readRecords {body : List Line} {t t' : Table}
    (h : body.foldlM readRecord t = .ok t') : t'.size = t.size + body.length := by
  induction body generalizing t with
  | nil =>
    obtain rfl := ok_inj.mp h
    rfl
  | cons l body ih =>
    obtain ⟨t₁, hl, h⟩ := bind_eq_ok.mp h
    obtain ⟨i, c, -, hinsert⟩ := readRecord_eq_ok.mp hl
    obtain ⟨-, rfl⟩ := Table.insertAt_eq_ok.mp hinsert
    rw [ih h, (Table.grownBy_push t c).size, List.length_cons]
    omega

/-- The refusal of a record that is not the first one. -/
def notFirst (line : Nat) (table : String) (index : Nat) : Error :=
  .parse line
    (Error.malformed table index "records must be loaded in order (expected index 1)").message

/-- A record that was loaded behind others cannot be loaded into an empty table. -/
theorem readRecord_of_size_ne_zero {t t' : Table} {l : Line} (hl : readRecord t l = .ok t')
    (hsize : t.size ≠ 0) (name : String) (m : Nat) :
    readRecord { name } (l.moved m) = .error (notFirst (l.number + m) name (t.size + 1)) := by
  obtain ⟨i, c, hrecord, hinsert⟩ := readRecord_eq_ok.mp hl
  obtain ⟨rfl, -⟩ := Table.insertAt_eq_ok.mp hinsert
  have halike : Alike Eq (recordOn l) (recordOn (l.moved m)) := recordOn_alike rfl
  have hrefused : Table.insertAt { name } (t.size + 1) c = .error (.malformed name (t.size + 1)
      "records must be loaded in order (expected index 1)") := by
    have hnext : ¬ t.size + 1 = Table.size { name } + 1 := fun h => hsize (Nat.succ.inj h)
    have hreason : s!"records must be loaded in order (expected index {0 + 1})" =
        "records must be loaded in order (expected index 1)" := by decide
    rw [Table.insertAt, if_neg hnext, ← hreason]
    rfl
  rw [readRecord_eq, halike.eq_ok hrecord]
  show Except.mapError _ (Table.insertAt { name } (t.size + 1) c) = _
  rw [hrefused]
  rfl

/-! ### Tables -/

theorem readTable_append (hname : name ≠ FlowStore.tableName) (f : DraftFunction) (n : Nat)
    (upper lower : List Line) : readTable f n name (upper ++ lower) =
      readTable f n name upper >>= fun g => readTable g n name lower := by
  have hfalse : (name == FlowStore.tableName) = false := by simpa using hname
  unfold readTable
  rw [hfalse]
  cases TableName.ofText? name with
  | none => rfl
  | some t =>
    simp only [List.foldlM_append, Bool.false_eq_true, if_false, bind_assoc, pure_bind,
      Dictionary.table_setTable, if_true, Dictionary.setTable_setTable]

/-- The lines of a table, in one piece. -/
theorem readTable_flows (f : DraftFunction) (n : Nat) (body : List Line) :
    readTable f n FlowStore.tableName body =
      (fun t => { f with flows := some t }) <$>
        body.foldlM readRecord { name := FlowStore.tableName } := by
  rw [readTable, if_pos (beq_self_eq_true _)]
  rfl

section Pieces

variable {header : Line} (hheader : headingOf header.words = .table name)
include hheader

theorem readSection_table {f : DraftFunction} (hf : d.current = some f) (body : List Line) :
    readSection d ⟨header, body⟩ =
      (fun g => { d with current := some g }) <$> readTable f header.number name body := by
  rw [readSection_eq, Section.heading, hheader]
  simp only [readUnder, Draft.currentFunction, hf]
  rfl

theorem current_of_readSection_table {body : List Line}
    (h : readSection d ⟨header, body⟩ = .ok d') : ∃ f, d.current = some f := by
  rw [readSection_eq, Section.heading, hheader] at h
  obtain ⟨f, hf, -⟩ := bind_eq_ok.mp h
  unfold Draft.currentFunction at hf
  split at hf
  next f' hcurrent => exact ⟨f', hcurrent⟩
  next => cases hf

/-- A section of a dictionary table is read in two pieces as in one. -/
theorem readSection_pieces (hname : name ≠ FlowStore.tableName) {upper lower : List Line}
    (h : readSection d ⟨header, upper ++ lower⟩ = .ok d') :
    ∃ d₁, readSection d ⟨header, upper⟩ = .ok d₁ ∧
      readSection d₁ ⟨header, lower⟩ = .ok d' := by
  obtain ⟨f, hf⟩ := current_of_readSection_table hheader h
  rw [readSection_table hheader hf, readTable_append hname, map_eq_ok] at h
  obtain ⟨g, hg, rfl⟩ := h
  obtain ⟨f₁, hupper, hlower⟩ := bind_eq_ok.mp hg
  refine ⟨{ d with current := some f₁ }, ?_, ?_⟩
  · rw [readSection_table hheader hf, hupper]
    rfl
  · rw [readSection_table hheader rfl, hlower]
    rfl

end Pieces

/-- The second piece of a section of dataflow facts is refused at its first line. -/
theorem readSection_pieces_of_flows {header : Line}
    (hheader : headingOf header.words = .table FlowStore.tableName)
    {upper lower : List Line} {l : Line} (hupper : upper ≠ [])
    (h : readSection d ⟨header, upper ++ l :: lower⟩ = .ok d') (n m : Nat) :
    ∃ d₁, readSection d ⟨header, upper⟩ = .ok d₁ ∧
      readSection d₁ ⟨⟨n, header.text⟩, (l :: lower).map (Line.moved m)⟩ =
        .error (notFirst (l.number + m) FlowStore.tableName (upper.length + 1)) := by
  obtain ⟨f, hf⟩ := current_of_readSection_table hheader h
  rw [readSection_table hheader hf, readTable_flows, List.foldlM_append, map_eq_ok] at h
  obtain ⟨g, hg, -⟩ := h
  obtain ⟨t, ht, -⟩ := map_eq_ok.mp hg
  obtain ⟨t₁, hfirst, hrest⟩ := bind_eq_ok.mp ht
  obtain ⟨t₂, hl, -⟩ := bind_eq_ok.mp hrest
  have hsize : t₁.size = upper.length := by
    rw [size_of_readRecords hfirst]
    exact Nat.zero_add _
  have hrefused := readRecord_of_size_ne_zero hl (by simpa [hsize] using hupper)
    FlowStore.tableName m
  refine ⟨{ d with current := some { f with flows := some t₁ } }, ?_, ?_⟩
  · rw [readSection_table hheader hf, readTable_flows, hfirst]
    rfl
  · have hmoved : headingOf (Line.words ⟨n, header.text⟩) = .table FlowStore.tableName := hheader
    rw [readSection_table hmoved rfl, readTable_flows, List.map_cons, List.foldlM_cons, hrefused,
      hsize]
    rfl

/-! ### Texts -/

variable {text : String} {p : ProgramFacts} {s : Section} {first rest : List Line} {l : Line}

theorem Section.same_refl (s : Section) : s.Same s :=
  ⟨rfl, List.forall₂_same.mpr fun _ _ => rfl⟩

theorem sameTexts_moved (m : Nat) (ls : List Line) : SameTexts ls (ls.map (Line.moved m)) :=
  List.forall₂_map_right_iff.mpr (List.forall₂_same.mpr fun _ _ => rfl)

theorem Section.same_moved (m : Nat) (s : Section) : s.Same (s.moved m) :=
  ⟨rfl, sameTexts_moved m s.body⟩

/-- A table does not start a function. -/
theorem Draft.meeting_table (hs : s.heading = .table name) (d : Draft) : d.meeting s = d := by
  rw [meeting, startsFunction_eq, hs]
  rfl

section Cut

variable (hload : (load text).1 = .ok p) (hs : s ∈ sections text) (hname : s.heading = .table name)
  (hbody : s.body = first ++ l :: rest)
include hload hs hname hbody

/-- What is read before a table, with the table, and behind it; and where the table is once cut. -/
theorem exists_reading : ∃ before after d₁ d₂ d,
    readSections before {} = (none, d₁) ∧
      readSection d₁ ⟨s.header, (first ++ [l]) ++ rest⟩ = .ok d₂ ∧
        readSections after d₂ = (none, d) ∧ d.close.program = p ∧
          sections (cutSection text s l) = before ++ ⟨s.header, first ++ [l]⟩ ::
            ⟨⟨l.number + 2, s.header.text⟩, rest.map (Line.moved 2)⟩ ::
              after.map (Section.moved 2) := by
  obtain ⟨d, hread, hp⟩ := load_eq_ok.mp hload
  obtain ⟨before, after, htext, hcut⟩ := sections_cutSection hs hbody
  rw [htext] at hread
  obtain ⟨d₁, hbefore, hread⟩ := readSections_append_eq_ok.mp hread
  obtain ⟨d₂, hsection, hafter⟩ := readSections_cons_eq_ok.mp hread
  rw [Draft.meeting_table hname] at hsection
  refine ⟨before, after, d₁, d₂, d, hbefore, ?_, hafter, hp, hcut⟩
  rwa [List.append_assoc, List.singleton_append, ← hbody]

/-- A dictionary table may be cut in two. -/
theorem load_cutSection_of_dictionary (hdictionary : name ≠ FlowStore.tableName) :
    (load (cutSection text s l)).1 = .ok p := by
  obtain ⟨before, after, d₁, d₂, d, hbefore, hsection, hafter, rfl, hcut⟩ :=
    exists_reading hload hs hname hbody
  obtain ⟨d₃, hupper, hlower⟩ := readSection_pieces hname hdictionary hsection
  have hpiece (body : List Line) (d : Draft) : d.meeting ⟨s.header, body⟩ = d :=
    Draft.meeting_table hname d
  -- Both pieces are read at the lines where they were before the cut; `load_of_same` moves them.
  have htwo : readSections (before ++ ⟨s.header, first ++ [l]⟩ :: ⟨s.header, rest⟩ :: after) {} =
      (none, d) := by
    rw [readSections_append_of_ok hbefore, readSections_cons, hpiece, hupper]
    dsimp only
    rw [readSections_cons, hpiece, hlower]
    exact hafter
  refine load_of_same htwo ?_
  rw [hcut]
  refine List.rel_append (List.forall₂_same.mpr fun s _ => s.same_refl)
    (.cons (Section.same_refl _) (.cons ⟨rfl, sameTexts_moved 2 rest⟩ ?_))
  exact List.forall₂_map_right_iff.mpr (List.forall₂_same.mpr fun s _ => s.same_moved 2)

/-- The table of dataflow facts may not: the second piece is refused. -/
theorem load_cutSection_of_flows (hflows : name = FlowStore.tableName) {r : Line}
    (hr : r ∈ rest.head?) : (load (cutSection text s l)).1 =
      .error (notFirst (r.number + 2) name (first.length + 2)) := by
  subst hflows
  obtain ⟨before, after, d₁, d₂, d, hbefore, hsection, -, -, hcut⟩ :=
    exists_reading hload hs hname hbody
  obtain ⟨others, rfl⟩ := List.head?_eq_some_iff.mp hr
  obtain ⟨d₃, hupper, hlower⟩ :=
    readSection_pieces_of_flows hname (by simp) hsection (l.number + 2) 2
  have hpiece (n : Nat) (body : List Line) (d : Draft) : d.meeting ⟨⟨n, s.header.text⟩, body⟩ = d :=
    Draft.meeting_table hname d
  refine load_of_error ?_
  rw [hcut, readSections_append_of_ok hbefore, readSections_cons, hpiece, hupper]
  dsimp only
  rw [readSections_cons, hpiece, hlower]
  simp

/-- **Tables in pieces.** A section of a table that is cut in two behind one of its records leaves
the program as it is, if the table is one of the dictionary. The table of dataflow facts is not
loaded from two pieces: where the second one starts, a record is refused for not being the first. -/
theorem load_cutSection :
    (name ≠ FlowStore.tableName → (load (cutSection text s l)).1 = .ok p) ∧
      (name = FlowStore.tableName → ∀ r ∈ rest.head?, (load (cutSection text s l)).1 =
        .error (notFirst (r.number + 2) name (first.length + 2))) :=
  ⟨load_cutSection_of_dictionary hload hs hname hbody,
    fun hflows _ hr => load_cutSection_of_flows hload hs hname hbody hflows hr⟩

end Cut

/-! ### A function with two dataflow facts -/

/-- The characters of a fact file with two records in each of its tables. -/
def pairedChars : List Char :=
  Text.joinLines (List.map String.toList
    ["FUNCTION f 0x400", "",
      "TABLE symbol", "1: R0 | 1", "2: R1 | 2", "",
      "TABLE denotation", "1: r,R0 |", "2: r,R1 |", "",
      "TABLE variable", "1: v | 1", "2: v | 2", "",
      "TABLE varinv", "1: r,0x400 | 1", "2: r,0x400 | 2"])

/-- A section of a table with two records. -/
def Section.IsPair (s : Section) (name : String) : Prop :=
  s.heading = .table name ∧ s.body.length = 2

instance (s : Section) (name : String) : Decidable (s.IsPair name) :=
  inferInstanceAs (Decidable (_ ∧ _))

theorem load_paired : ∃ p, (load (String.ofList pairedChars)).1 = .ok p := by
  have hreads : (readSections (sectionsOfChars pairedChars) {}).1 = none := by decide +kernel
  exact ⟨_, load_of_read (congrArg (readSections · {}) (sections_ofList pairedChars)) hreads⟩

theorem exists_isPair (h : ∃ s ∈ sectionsOfChars pairedChars, s.IsPair name) :
    ∃ s ∈ sections (String.ofList pairedChars), s.heading = .table name ∧
      ∃ l r, s.body = [] ++ l :: [r] := by
  rw [← sections_ofList] at h
  obtain ⟨s, hs, hname, hlength⟩ := h
  obtain ⟨l, r, hbody⟩ := List.length_eq_two.mp hlength
  exact ⟨s, hs, hname, l, r, hbody⟩

theorem exists_flows_isPair : ∃ s ∈ sections (String.ofList pairedChars),
    s.heading = .table FlowStore.tableName ∧ ∃ l r, s.body = [] ++ l :: [r] :=
  exists_isPair (by decide +kernel)

/-- A table of dataflow facts that is not loaded once it is cut. -/
theorem flows_refused_in_pieces :
    ¬ ∀ (text : String) (p : ProgramFacts) (s : Section) (name : String) (first rest : List Line)
        (l : Line), (load text).1 = .ok p → s ∈ sections text → s.heading = .table name →
      s.body = first ++ l :: rest → rest ≠ [] → (load (cutSection text s l)).1 = .ok p := by
  intro h
  obtain ⟨p, hp⟩ := load_paired
  obtain ⟨s, hs, hname, l, r, hbody⟩ := exists_flows_isPair
  have hcut := h _ p s _ [] [r] l hp hs hname hbody (by simp)
  have hrefused := load_cutSection_of_flows hp hs hname hbody rfl (Option.mem_some_self r)
  rw [hcut] at hrefused
  cases hrefused

/-- The symbols of a function in two pieces, and its dataflow facts. -/
theorem load_cutSection_of_pair : ∃ p, (load (String.ofList pairedChars)).1 = .ok p ∧
    (∃ s ∈ sections (String.ofList pairedChars), ∃ l ∈ s.body,
      s.heading = .table TableName.symbols.text ∧
        (load (cutSection (String.ofList pairedChars) s l)).1 = .ok p) ∧
    ∃ s ∈ sections (String.ofList pairedChars), ∃ l ∈ s.body, ∃ r ∈ s.body,
      s.heading = .table FlowStore.tableName ∧
        (load (cutSection (String.ofList pairedChars) s l)).1 =
          .error (notFirst (r.number + 2) FlowStore.tableName 2) := by
  obtain ⟨p, hp⟩ := load_paired
  obtain ⟨s, hs, hname, l, r, hbody⟩ : ∃ s ∈ sections (String.ofList pairedChars),
      s.heading = .table TableName.symbols.text ∧ ∃ l r, s.body = [] ++ l :: [r] :=
    exists_isPair (by decide +kernel)
  obtain ⟨s', hs', hname', l', r', hbody'⟩ := exists_flows_isPair
  refine ⟨p, hp, ⟨s, hs, l, by simp [hbody], hname, ?_⟩,
    ⟨s', hs', l', by simp [hbody'], r', by simp [hbody'], hname', ?_⟩⟩
  · exact (load_cutSection hp hs hname hbody).1 (by decide)
  · exact (load_cutSection hp hs' hname' hbody').2 rfl r' rfl

end FactFile

end FactLift
