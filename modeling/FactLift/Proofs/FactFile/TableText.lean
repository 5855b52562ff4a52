import FactLift.Proofs.FactFile.Padding
import FactLift.Proofs.FactFile.TablePieces
import FactLift.Proofs.Text.Integer

/-! Tables that are written are read back.

The text of a record is cut at its first colon and at its first bar; the index has no colon in it,
and tags have no bar, whatever else they are. What stands between commas is then the same again
(`listed_items`), so a line holds the record that was written on it (`recordOn_recordLine`). The
records of a table come in order, so the table is loaded as it was (`load_tableText`). -/

namespace FactLift.FactFile

/-! ### Items -/

/-- What can stand between commas: a text that is not empty, without a comma and without white space
at its ends. -/
structure IsItem (s : String) : Prop where
  ne_empty : s ≠ ""
  comma : ',' ∉ s.toList
  trimmed : Text.IsTrimmed s.toList

/-- A tag that can be written on a line of a table. -/
structure IsTag (tag : String) : Prop extends IsItem tag where
  bar : '|' ∉ tag.toList
  newline : '\n' ∉ tag.toList

instance (s : String) : Decidable (IsItem s) :=
  decidable_of_iff (s ≠ "" ∧ ',' ∉ s.toList ∧ Text.IsTrimmed s.toList)
    ⟨fun ⟨hne, hcomma, htrimmed⟩ => ⟨hne, hcomma, htrimmed⟩,
      fun h => ⟨h.ne_empty, h.comma, h.trimmed⟩⟩

instance (tag : String) : Decidable (IsTag tag) :=
  decidable_of_iff (IsItem tag ∧ '|' ∉ tag.toList ∧ '\n' ∉ tag.toList)
    ⟨fun ⟨hitem, hbar, hnewline⟩ => ⟨hitem, hbar, hnewline⟩,
      fun h => ⟨h.toIsItem, h.bar, h.newline⟩⟩

/-- Numbers can stand between commas. -/
theorem isItem_toString (v : Int) : IsItem (toString v) where
  ne_empty h := by
    have hlist := congrArg String.toList h
    cases v with
    | ofNat n => exact Nat.toDigits_ne_nil (Nat.toList_repr.symm.trans hlist)
    | negSucc n =>
      rw [Int.toString_eq_repr, Int.repr, String.toList_append] at hlist
      cases hlist
  comma h := by
    rcases Text.mem_toString_int h with h | h <;> cases h
  trimmed := by
    refine Text.isTrimmed_of_forall fun c hc => ?_
    rcases Text.mem_toString_int hc with rfl | h
    · rfl
    · exact Text.isBlank_of_isDigit h

section Items

variable {items : List String}

theorem mem_items {c : Char} (h : c ∈ (",".intercalate items).toList) :
    c = ',' ∨ ∃ s ∈ items, c ∈ s.toList := by
  rw [String.toList_intercalate] at h
  induction items with
  | nil => cases h
  | cons s rest ih =>
    cases rest with
    | nil => exact .inr ⟨s, by simp, by simpa using h⟩
    | cons s' rest =>
      rw [List.map_cons, List.map_cons, List.intercalate_cons_cons] at h
      rcases List.mem_append.mp h with h | h
      · rcases List.mem_append.mp h with h | h
        · exact .inr ⟨s, by simp, h⟩
        · exact .inl (List.mem_singleton.mp h)
      · refine (ih h).imp_right fun ⟨t, ht, hc⟩ => ⟨t, List.mem_cons_of_mem s ht, hc⟩

variable (h : ∀ s ∈ items, IsItem s)
include h

theorem items_ne_nil (hne : items ≠ []) : (",".intercalate items).toList ≠ [] := by
  obtain ⟨s, rest, rfl⟩ := List.exists_cons_of_ne_nil hne
  have hs : s.toList ≠ [] := by simpa using (h s (by simp)).ne_empty
  rw [String.toList_intercalate]
  cases rest with
  | nil => simpa using hs
  | cons s' rest =>
    rw [List.map_cons, List.map_cons, List.intercalate_cons_cons, List.append_assoc]
    exact List.append_ne_nil_of_left_ne_nil hs _

theorem isTrimmed_items : Text.IsTrimmed (",".intercalate items).toList := by
  induction items with
  | nil => exact Text.isTrimmed_of_forall (by simp)
  | cons s rest ih =>
    have hs := h s (by simp)
    have hrest : ∀ s ∈ rest, IsItem s := fun t ht => h t (List.mem_cons_of_mem s ht)
    cases rest with
    | nil => simpa using hs.trimmed
    | cons s' rest =>
      have hne := items_ne_nil hrest (List.cons_ne_nil s' rest)
      have htail := ih hrest
      rw [String.toList_intercalate] at hne htail ⊢
      rw [List.map_cons, List.map_cons, List.intercalate_cons_cons]
      exact hs.trimmed.append (by simpa using hs.ne_empty) htail hne _

/-- Items between commas are read back, with white space around them or without. -/
theorem listed_items {front back : List Char} (hfront : ∀ c ∈ front, Text.isBlank c)
    (hback : ∀ c ∈ back, Text.isBlank c) :
    listed (front ++ ((",".intercalate items).toList ++ back)) = items := by
  unfold listed
  rw [Text.trim_of_blank hfront _ hback, (isTrimmed_items h).trim_eq]
  by_cases hne : items = []
  · subst hne
    rfl
  · have htext := items_ne_nil h hne
    have hcommas : ∀ cs ∈ items.map String.toList, ',' ∉ cs := by
      intro cs hcs
      obtain ⟨s, hs, rfl⟩ := List.mem_map.mp hcs
      exact (h s hs).comma
    have hsplit : Text.splitBy (· == ',') (",".intercalate items).toList =
        items.map String.toList := by
      rw [Text.splitBy_eq_splitOnP, String.toList_intercalate]
      exact List.splitOn_intercalate ',' hcommas (by simpa using hne)
    split
    next hnil => exact absurd hnil htext
    next =>
      have htrim : ∀ s ∈ items, String.ofList (Text.trim s.toList) = s := by
        intro s hs
        rw [(h s hs).trimmed.trim_eq, String.ofList_toList]
      rw [hsplit, List.map_map]
      exact (List.map_congr_left htrim).trans (List.map_id' items)

end Items

theorem listed_trimRight (cs : List Char) : listed (Text.trimRight cs) = listed cs := by
  unfold listed
  rw [Text.trim_trimRight]

/-! ### Records -/

theorem toList_text (r : Record) : r.text.toList = (toString r.index).toList ++ ':' ::
    ([' '] ++ ((",".intercalate r.tags).toList ++ [' ']) ++ '|' :: ([' '] ++
      (",".intercalate (r.args.map fun a => toString a.toInt)).toList)) := by
  simp only [Record.text, String.toList_append, List.append_assoc]
  rfl

def recordLine (r : Record) : Line :=
  ⟨0, Text.trimRight r.text.toList⟩

/-- An index that is written is read back, if it fits a signed word. -/
theorem readIndex_toString {i : Nat} (hi : i < 2 ^ 63) (line : Nat) :
    readIndex line (toString i) = .ok i := by
  have hint : (Int64.ofNat i).toInt = i := Int64.toInt_ofNat_of_lt hi
  have hread : Text.parseInt64? (toString i) = some (Int64.ofNat i) := by
    rw [← Text.parseInt64?_toString, hint]
    rfl
  have hnonneg : ¬ Int64.ofNat i < 0 := by
    rw [Int64.lt_iff_toInt_lt, hint]
    exact Int.not_lt.mpr (Int.natCast_nonneg i)
  refine bind_eq_ok.mpr ⟨Int64.ofNat i, ?_, ?_⟩
  · rw [readInt, hread]
  · rw [if_neg hnonneg, hint]
    rfl

/-- Arguments that are written are read back. -/
theorem readInts_toString (line : Nat) (args : List Int64) :
    (args.map fun a => toString a.toInt).mapM (readInt line) = .ok args := by
  induction args with
  | nil => rfl
  | cons a args ih =>
    rw [List.map_cons, List.mapM_cons, ih, readInt, Text.parseInt64?_toString]
    rfl

/-- **A record** that is written on a line is read back. -/
theorem recordOn_recordLine {r : Record} (hindex : r.index < 2 ^ 63)
    (htags : ∀ tag ∈ r.tags, IsTag tag) : recordOn (recordLine r) = .ok (r.index, r.content) := by
  have hblank : ∀ c ∈ [' '], Text.isBlank c := List.forall_mem_singleton.mpr rfl
  have hargs : ∀ s ∈ r.args.map fun a => toString a.toInt, IsItem s := by
    intro s hs
    obtain ⟨a, -, rfl⟩ := List.mem_map.mp hs
    exact isItem_toString a.toInt
  have hcolon : ':' ∉ (toString r.index).toList := fun h => by cases Text.isDigit_of_mem_toString h
  have hbar : '|' ∉ [' '] ++ ((",".intercalate r.tags).toList ++ [' ']) := by
    intro h
    simp only [List.mem_append, List.mem_singleton, Char.reduceEq, false_or, or_false] at h
    rcases mem_items h with h | ⟨tag, htag, h⟩
    · cases h
    · exact (htags tag htag).bar h
  have hindexText : Text.trim (toString r.index).toList = (toString r.index).toList :=
    (Text.isTrimmed_of_forall fun _ hc =>
      Text.isBlank_of_isDigit (Text.isDigit_of_mem_toString hc)).trim_eq
  -- The last blank of a line goes when nothing stands behind the bar; `listed` does not mind.
  have htagList := listed_items (fun tag htag => (htags tag htag).toIsItem) hblank hblank
  have hnone : ∀ c ∈ ([] : List Char), Text.isBlank c := by simp
  have hargList := listed_items hargs hblank hnone
  unfold recordOn recordLine
  rw [toList_text, Text.trimRight_append_cons rfl, Text.trimRight_append_cons rfl,
    Text.splitOnce_append hcolon]
  refine bind_eq_ok.mpr ⟨r.index, ?_, bind_eq_ok.mpr ⟨r.content, ?_, rfl⟩⟩
  · rw [hindexText, String.ofList_toList]
    exact readIndex_toString hindex 0
  · rw [List.append_nil] at hargList
    rw [readContent, Text.splitOnce_append hbar]
    dsimp only
    rw [htagList, listed_trimRight, hargList, readInts_toString]
    rfl

/-! ### Tables -/

/-- The lines of records in a row, loaded into a table whose next index is the first of them. -/
theorem readRecords_recordLines (cs : List Content) {t : Table}
    (hsize : t.size + cs.length < 2 ^ 63) (htags : ∀ c ∈ cs, ∀ tag ∈ c.tags, IsTag tag) :
    ((cs.zipIdx t.size).map fun (c, position) => recordLine ⟨position + 1, c⟩).foldlM readRecord t =
      .ok { t with entries := cs.foldl Roster.push t.entries } := by
  induction cs generalizing t with
  | nil => simp [pure, Except.pure]
  | cons c cs ih =>
    rw [List.length_cons] at hsize
    have hrecord := recordOn_recordLine (r := ⟨t.size + 1, c⟩) (by simp; omega) (htags c (by simp))
    have hread : readRecord t (recordLine ⟨t.size + 1, c⟩) =
        .ok { t with entries := t.entries.push c } :=
      readRecord_eq_ok.mpr ⟨t.size + 1, c, hrecord, Table.insertAt_eq_ok.mpr ⟨rfl, rfl⟩⟩
    have hgrown := (Table.grownBy_push t c).size
    have hrest := ih (t := { t with entries := t.entries.push c }) (by rw [hgrown]; omega)
      fun c' hc' => htags c' (List.mem_cons_of_mem c hc')
    rw [hgrown] at hrest
    rw [List.zipIdx_cons, List.map_cons, List.foldlM_cons]
    exact bind_eq_ok.mpr ⟨_, hread, hrest⟩

theorem readTable_dictionary (f : DraftFunction) (n : Nat) (name : TableName) (body : List Line) :
    readTable f n name.text body =
      (fun t => { f with dictionary := f.dictionary.setTable name t }) <$>
        body.foldlM readRecord (f.dictionary.table name) := by
  have hflows : (name.text == FlowStore.tableName) = false := by cases name <;> decide
  have hname : TableName.ofText? name.text = some name := by cases name <;> decide
  rw [readTable, hflows, hname]
  rfl

/-! ### Files -/

/-- A text that is one word. -/
structure IsWord (s : String) : Prop where
  ne_empty : s ≠ ""
  solid : ∀ c ∈ s.toList, Text.isBlank c = false

instance (s : String) : Decidable (IsWord s) :=
  decidable_of_iff (s ≠ "" ∧ s.toList.all (!Text.isBlank ·))
    ⟨fun ⟨hne, hsolid⟩ => ⟨hne, by simpa using hsolid⟩,
      fun h => ⟨h.ne_empty, by simpa using h.solid⟩⟩

def functionHeader (function address : String) : String :=
  "FUNCTION " ++ function ++ " " ++ address

def tableHeader (name : String) : String :=
  "TABLE " ++ name

/-- The lines of a file with one table: the header of its function, a blank line, the header of the
table, and a line for each record. -/
def tableLines (function address : String) (t : Table) : List String :=
  [functionHeader function address, "", tableHeader t.name] ++ t.records.map Record.text

/-- A file with one table. -/
def tableText (function address : String) (t : Table) : String :=
  String.ofList (Text.joinLines ((tableLines function address t).map String.toList))

/-- Whether a line starts with something other than white space and the mark of comments. -/
def StartsText (l : List Char) : Prop :=
  ∃ c ∈ l.head?, Text.isBlank c = false ∧ c ≠ '#'

theorem StartsText.isCommentText_eq {l : List Char} (h : StartsText l) :
    isCommentText l = false := by
  obtain ⟨c, hc, hblank, hmark⟩ := h
  obtain ⟨rest, rfl⟩ := List.head?_eq_some_iff.mp hc
  rw [isCommentText, Text.trimLeft, List.dropWhile_cons_of_neg (by simp [hblank])]
  simpa using hmark

theorem StartsText.isBlankText_eq {l : List Char} (h : StartsText l) : isBlankText l = false := by
  obtain ⟨c, hc, hblank, -⟩ := h
  obtain ⟨rest, rfl⟩ := List.head?_eq_some_iff.mp hc
  rw [isBlankText, List.all_cons, hblank, Bool.false_and]

theorem startsText_text (r : Record) : StartsText r.text.toList := by
  obtain ⟨c, rest, hdigits⟩ := List.exists_cons_of_ne_nil (Nat.toDigits_ne_nil (n := r.index))
  have hlist : (toString r.index).toList = c :: rest := Nat.toList_repr.trans hdigits
  have hdigit : c.isDigit = true := Text.isDigit_of_mem_toString (by rw [hlist]; simp)
  refine ⟨c, ?_, Text.isBlank_of_isDigit hdigit, ?_⟩
  · rw [toList_text, hlist]
    rfl
  · rintro rfl
    cases hdigit

/-- The sections of a header, a blank line, and other lines. -/
theorem sectionTexts_of_startsText {header : List Char} {body : List (List Char)}
    (hheader : StartsText header) (hne : body ≠ []) (hbody : ∀ l ∈ body, StartsText l) :
    sectionTexts (header :: [] :: body) = [[Text.trimRight header], body.map Text.trimRight] := by
  have hkept {ls : List (List Char)} (h : ∀ l ∈ ls, StartsText l) :
      textsOf ls = ls.map Text.trimRight := by
    refine List.filter_eq_self.mpr fun l hl => ?_
    obtain ⟨l', hl', rfl⟩ := List.mem_map.mp hl
    rw [isCommentText_trimRight, (h l' hl').isCommentText_eq]
    rfl
  have hsolid {ls : List (List Char)} (h : ∀ l ∈ ls, StartsText l) :
      ∀ l ∈ ls.map Text.trimRight, isBlankText l = false := by
    intro l hl
    obtain ⟨l', hl', rfl⟩ := List.mem_map.mp hl
    rw [isBlankText_trimRight, (h l' hl').isBlankText_eq]
  have hone : ∀ l ∈ [header], StartsText l := by simpa using hheader
  have htexts : textsOf (header :: [] :: body) =
      [header].map Text.trimRight ++ [] :: body.map Text.trimRight := by
    rw [← List.singleton_append, textsOf_append, hkept hone, textsOf_cons_of_isBlankText rfl,
      hkept hbody]
    rfl
  rw [sectionTexts, htexts, Text.stretches_append_cons _ _ rfl,
    Text.stretches_of_forall (by simp) (hsolid hone),
    Text.stretches_of_forall (by simpa using hne) (hsolid hbody)]
  rfl

section Load

variable {function address : String} {name : TableName} {t : Table}

theorem heading_function (hfunction : IsWord function) (haddress : IsWord address) (n : Nat) :
    headingOf (Line.words ⟨n, Text.trimRight (functionHeader function address).toList⟩) =
      .function function address := by
  have htext : (functionHeader function address).toList =
      "FUNCTION".toList ++ ' ' :: (function.toList ++ ' ' :: address.toList) := by
    simp [functionHeader, String.toList_append]
  have hlast : Text.words address.toList = [address.toList] :=
    Text.stretches_of_forall (by simpa using haddress.ne_empty) haddress.solid
  have hkeyword : IsWord "FUNCTION" := by decide
  rw [Line.words, Text.words_trimRight, htext,
    Text.words_append_cons (by simp) hkeyword.solid rfl,
    Text.words_append_cons (by simpa using hfunction.ne_empty) hfunction.solid rfl, hlast]
  simp [headingOf]

theorem heading_table (name : TableName) (n : Nat) :
    headingOf (Line.words ⟨n, Text.trimRight (tableHeader name.text).toList⟩) =
      .table name.text := by
  rw [Line.words, Text.words_trimRight]
  cases name <;> decide

theorem newline_notMem_text {r : Record} (htags : ∀ tag ∈ r.tags, IsTag tag) :
    '\n' ∉ r.text.toList := by
  intro h
  rw [toList_text] at h
  simp only [List.mem_append, List.mem_cons, List.not_mem_nil, Char.reduceEq, false_or,
    or_false] at h
  rcases h with h | h | h
  · cases Text.isDigit_of_mem_toString h
  · rcases mem_items h with h | ⟨tag, htag, h⟩
    · cases h
    · exact (htags tag htag).newline h
  · rcases mem_items h with h | ⟨s, hs, h⟩
    · cases h
    · obtain ⟨a, -, rfl⟩ := List.mem_map.mp hs
      rcases Text.mem_toString_int h with h | h <;> cases h

theorem newline_notMem_of_isWord {s : String} (h : IsWord s) : '\n' ∉ s.toList := by
  intro hnewline
  cases h.solid '\n' hnewline

theorem newline_notMem_tableLines (hfunction : IsWord function) (haddress : IsWord address)
    (hname : t.name = name.text) (htags : ∀ r ∈ t.records, ∀ tag ∈ r.tags, IsTag tag) :
    ∀ l ∈ (tableLines function address t).map String.toList, '\n' ∉ l := by
  have hheader : '\n' ∉ (functionHeader function address).toList := by
    simp [functionHeader, String.toList_append, newline_notMem_of_isWord hfunction,
      newline_notMem_of_isWord haddress]
  have htable : '\n' ∉ (tableHeader t.name).toList := by
    rw [hname]
    cases name <;> decide
  intro l hl
  simp only [tableLines, List.map_cons, List.map_map, List.cons_append, List.nil_append,
    List.mem_cons, List.mem_map, Function.comp_apply] at hl
  rcases hl with rfl | rfl | rfl | ⟨r, hr, rfl⟩
  · exact hheader
  · exact List.not_mem_nil
  · exact htable
  · exact newline_notMem_text (htags r hr)

/-- A file with one table has two sections. -/
theorem sectionTexts_tableText (hfunction : IsWord function) (haddress : IsWord address)
    (hname : t.name = name.text) (htags : ∀ r ∈ t.records, ∀ tag ∈ r.tags, IsTag tag) :
    sectionTexts (Text.lines (tableText function address t).toList) =
      [[Text.trimRight (functionHeader function address).toList],
        Text.trimRight (tableHeader name.text).toList ::
          t.records.map fun r => (recordLine r).text] := by
  have hnewline := newline_notMem_tableLines hfunction haddress hname htags
  rw [tableText, Text.lines_ofList_joinLines hnewline, tableLines, hname]
  have hheader : StartsText (functionHeader function address).toList :=
    ⟨'F', by simp [functionHeader, String.toList_append], rfl, by decide⟩
  have hbody : ∀ l ∈ (tableHeader name.text).toList :: t.records.map fun r => r.text.toList,
      StartsText l := by
    intro l hl
    rcases List.mem_cons.mp hl with rfl | hl
    · exact ⟨'T', by simp [tableHeader, String.toList_append], rfl, by decide⟩
    · obtain ⟨r, -, rfl⟩ := List.mem_map.mp hl
      exact startsText_text r
  have hsections := sectionTexts_of_startsText hheader (List.cons_ne_nil _ _) hbody
  simpa [recordLine, Function.comp_def] using hsections

theorem map_content_records (t : Table) : t.records.map Record.content = t.entries.toList := by
  rw [Table.records, List.map_map]
  exact List.zipIdx_map_fst 0 _

/-- The records of a table, loaded into an empty one of its name. -/
theorem readRecords_records (hname : t.name = name.text) (hsize : t.size < 2 ^ 63)
    (htags : ∀ r ∈ t.records, ∀ tag ∈ r.tags, IsTag tag) :
    (t.records.map recordLine).foldlM readRecord { name := name.text } = .ok t := by
  have hcontents : ∀ c ∈ t.entries.toList, ∀ tag ∈ c.tags, IsTag tag := by
    intro c hc
    rw [← map_content_records] at hc
    obtain ⟨r, hr, rfl⟩ := List.mem_map.mp hc
    exact htags r hr
  have hlines := readRecords_recordLines t.entries.toList (t := { name := name.text })
    (by simpa [Table.size, Roster.size, Roster.toList] using hsize) hcontents
  rw [Table.records, List.map_map]
  refine hlines.trans ?_
  rw [← hname]
  exact congrArg (fun entries => Except.ok { t with entries }) t.entries.ofList_toList

def startSection (function address : String) : Section :=
  ⟨⟨1, Text.trimRight (functionHeader function address).toList⟩, []⟩

def tableSection (name : TableName) (t : Table) : Section :=
  ⟨⟨3, Text.trimRight (tableHeader name.text).toList⟩, t.records.map recordLine⟩

/-- The function with its table, once both sections are read. -/
def tableDraft (function : String) (a : UInt64) (name : TableName) (t : Table) : Draft where
  current := some
    { line := 1, name := function, address := a, dictionary := Dictionary.setTable {} name t }

theorem readSections_tableText (hfunction : IsWord function) (haddress : IsWord address)
    {a : UInt64} (hread : readAddress 1 address = .ok a) (hname : t.name = name.text)
    (hsize : t.size < 2 ^ 63) (htags : ∀ r ∈ t.records, ∀ tag ∈ r.tags, IsTag tag) :
    readSections [startSection function address, tableSection name t] {} =
      (none, tableDraft function a name t) := by
  have hheading : (tableSection name t).heading = .table name.text := heading_table name 3
  have hclosed : Draft.meeting {} (startSection function address) = {} := by
    rw [Draft.meeting]
    split <;> rfl
  have hempty : Dictionary.table {} name = { name := name.text } := by cases name <;> rfl
  refine readSections_cons_eq_ok.mpr
    ⟨{ current := some { line := 1, name := function, address := a } }, ?_, ?_⟩
  · rw [hclosed, readSection_eq, Section.heading, startSection,
      heading_function hfunction haddress]
    exact bind_eq_ok.mpr ⟨a, hread, rfl⟩
  · refine readSections_cons_eq_ok.mpr ⟨tableDraft function a name t, ?_, rfl⟩
    rw [Draft.meeting_table hheading, tableSection, readSection_table (heading_table name 3) rfl,
      readTable_dictionary, hempty, readRecords_records hname hsize htags]
    rfl

/-- **Tables that are written are read back.** A file with the records of a table of the dictionary,
one to a line, is loaded as one function with that very table, whatever calls have built the table
and whatever its arguments are. An index is read as a signed word, which no table in memory gets
past. -/
theorem load_tableText (hfunction : IsWord function) (haddress : IsWord address) {a : UInt64}
    (hread : readAddress 1 address = .ok a) (hname : t.name = name.text) (hsize : t.size < 2 ^ 63)
    (htags : ∀ r ∈ t.records, ∀ tag ∈ r.tags, IsTag tag) :
    ∃ p f, (load (tableText function address t)).1 = .ok p ∧ p.functions = [f] ∧
      p.rejected = [] ∧ f.name = function ∧ f.address = a ∧ f.dictionary.table name = t := by
  have hsame : List.Forall₂ Section.Same [startSection function address, tableSection name t]
      (sections (tableText function address t)) := by
    refine same_of_texts_eq ?_
    rw [map_texts_sections, sectionTexts_tableText hfunction haddress hname htags]
    simp [startSection, tableSection, Section.texts, Function.comp_def]
  have hsections := readSections_tableText hfunction haddress hread hname hsize htags
  refine ⟨_, _, load_of_same hsections hsame, rfl, rfl, rfl, rfl, ?_⟩
  exact (Dictionary.table_setTable ..).trans (if_pos rfl)

end Load

/-- Expressions with a tag that has a colon, a space and a mark of comments in it, with the least
argument, with a record that comes twice, and with nothing on one side or on both. -/
def writtenTable : Table :=
  Table.afterAll { name := TableName.exprs.text }
    [.add ⟨["x: #1; y", "0x10"], [Int64.minValue, -1]⟩, .insertAt 2 ⟨["v"], []⟩,
      .insertAt 3 ⟨["v"], []⟩, .insertAt 4 ⟨[], [5]⟩, .insertAt 5 ⟨[], []⟩, .insertAt 9 ⟨[], [5]⟩]

theorem load_tableText_of_exprs :
    ∃ p f, (load (tableText "f" "0x400" writtenTable)).1 = .ok p ∧ p.functions = [f] ∧
      p.rejected = [] ∧ f.name = "f" ∧ f.address = 0x400 ∧
        f.dictionary.table .exprs = writtenTable :=
  load_tableText (by decide) (by decide) rfl (by decide +kernel) (by decide +kernel)
    (by decide +kernel)

end FactLift.FactFile
