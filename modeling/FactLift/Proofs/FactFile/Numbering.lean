import FactLift.FactFile.Section
import FactLift.Proofs.Text.Lines

/-! Lines with their numbers, and lines put between them.

A line stands where its number says, so lines can be put in behind it: what comes before stays as it
is, and what comes behind moves on (`linesOf_insertLines`). With a blank line and its header, a
section is cut in two there (`sections_cutSection`). -/

namespace FactLift.FactFile

/-- Lines whose numbers go on from `n`. -/
def numbered (n : Nat) (raw : List (List Char)) : List Line :=
  (raw.zipIdx n).map fun (l, i) => ⟨i + 1, Text.trimRight l⟩

theorem linesOf_eq_filter (text : String) :
    linesOf text = (numbered 0 (Text.lines text.toList)).filter fun l => !l.isComment := rfl

/-- The line, so many lines further on. -/
def Line.moved (m : Nat) (l : Line) : Line :=
  { l with number := l.number + m }

/-- The section, so many lines further on. -/
def Section.moved (m : Nat) (s : Section) : Section :=
  { header := s.header.moved m, body := s.body.map (Line.moved m) }

theorem numbered_append (n : Nat) (as bs : List (List Char)) :
    numbered n (as ++ bs) = numbered n as ++ numbered (n + as.length) bs := by
  rw [numbered, List.zipIdx_append, List.map_append, numbered, numbered]

theorem numbered_add (n m : Nat) (raw : List (List Char)) :
    numbered (n + m) raw = (numbered n raw).map (Line.moved m) := by
  rw [numbered, Nat.add_comm n m, ← List.map_snd_add_zipIdx_eq_zipIdx, numbered, List.map_map,
    List.map_map]
  refine List.map_congr_left fun (l, i) _ => ?_
  simp [Line.moved, Nat.add_right_comm]

/-- A line stands where its number says. -/
theorem numbered_eq_append_cons {raw : List (List Char)} {before after : List Line} {l : Line}
    (h : numbered 0 raw = before ++ l :: after) :
    ∃ front back, raw = front ++ back ∧ front.length = l.number ∧
      before ++ [l] = numbered 0 front ∧ after = numbered l.number back := by
  obtain ⟨front, back, hraw, hfront, hback⟩ := List.map_eq_append_iff.mp h
  obtain ⟨as, bs, rfl, rfl, rfl⟩ := List.zipIdx_eq_append_iff.mp hraw
  obtain ⟨x, rest, hbs, hl, hrest⟩ := List.map_eq_cons_iff.mp hback
  obtain ⟨b, bs, rfl, rfl, rfl⟩ := List.zipIdx_eq_cons_iff.mp hbs
  have hnumber : l.number = as.length + 1 := by rw [← hl, Nat.zero_add]
  refine ⟨as ++ [b], bs, by simp, by simp [hnumber], ?_, ?_⟩
  · rw [numbered_append, ← hfront, ← hl]
    rfl
  · rw [hnumber, ← hrest, numbered, Nat.zero_add]

/-! ### Lines put in -/

/-- Puts lines into a text, behind the line with a number. -/
def insertLines (text : String) (number : Nat) (extra : List (List Char)) : String :=
  let raw := Text.lines text.toList
  String.ofList (Text.joinLines (raw.take number ++ (extra ++ raw.drop number)))

theorem filter_moved (m : Nat) (ls : List Line) :
    (ls.map (Line.moved m)).filter (fun l => !l.isComment) =
      (ls.filter fun l => !l.isComment).map (Line.moved m) :=
  List.filter_map

/-- The lines behind those that were put in have moved. -/
theorem linesOf_insertLines {text : String} {before after : List Line} {l : Line}
    (hlines : linesOf text = before ++ l :: after) {extra : List (List Char)}
    (hextra : ∀ e ∈ extra, '\n' ∉ e) :
    linesOf (insertLines text l.number extra) =
      before ++ l :: ((numbered l.number extra).filter (fun l => !l.isComment) ++
        after.map (Line.moved extra.length)) := by
  rw [linesOf_eq_filter] at hlines
  obtain ⟨as, bs, hall, rfl, hbs⟩ := List.filter_eq_append_iff.mp hlines
  obtain ⟨cs, ds, rfl, hcs, hl, rfl⟩ := List.filter_eq_cons_iff.mp hbs
  rw [← List.append_assoc] at hall
  obtain ⟨front, back, hraw, hlength, hfront, rfl⟩ := numbered_eq_append_cons hall
  have hnewlines : ∀ e ∈ front ++ (extra ++ back), '\n' ∉ e := by
    intro e he
    have hold : e ∈ front ++ back → '\n' ∉ e := fun he =>
      Text.newline_notMem_lines (hraw ▸ he)
    simp only [List.mem_append] at he hold
    rcases he with he | he | he
    · exact hold (.inl he)
    · exact hextra e he
    · exact hold (.inr he)
  have hread : Text.lines (insertLines text l.number extra).toList = front ++ (extra ++ back) := by
    rw [insertLines, String.toList_ofList, hraw, List.take_left' hlength, List.drop_left' hlength,
      Text.lines_joinLines hnewlines]
  rw [linesOf_eq_filter, hread, numbered_append, numbered_append, ← hfront, Nat.zero_add, hlength,
    numbered_add l.number extra.length]
  have hkept : l.isComment = false := by simpa using hl
  simp only [List.filter_append, filter_moved, List.filter_eq_nil_iff.mpr hcs]
  simp [hkept]

/-! ### Sections cut in two -/

/-- Cuts a section in two behind one of its lines: a blank line and the header come in there. -/
def cutSection (text : String) (s : Section) (l : Line) : String :=
  insertLines text l.number [[], s.header.text]

def sectionsIn (ls : List Line) : List Section :=
  (Text.stretches Line.isBlank ls).filterMap sectionOf?

/-- The sections of a text with these characters. -/
def sectionsOfChars (cs : List Char) : List Section :=
  (Text.stretches Line.isBlank (((Text.lines cs).zipIdx.map fun (l, i) =>
    (⟨i + 1, Text.trimRight l⟩ : Line)).filter fun l => !l.isComment)).filterMap sectionOf?

theorem sections_ofList (cs : List Char) : sections (String.ofList cs) = sectionsOfChars cs := by
  rw [sections, linesOf, String.toList_ofList, sectionsOfChars]

theorem sectionsIn_moved (m : Nat) (ls : List Line) :
    sectionsIn (ls.map (Line.moved m)) = (sectionsIn ls).map (Section.moved m) := by
  have hmoved : sectionOf? ∘ List.map (Line.moved m) =
      fun ls => (sectionOf? ls).map (Section.moved m) := by
    funext ls
    cases ls <;> rfl
  rw [sectionsIn, Text.stretches_map, List.filterMap_map, hmoved, sectionsIn, List.map_filterMap]
  rfl

theorem sectionsIn_between {before after : List Line} {s : Section}
    (hbefore : Text.EndsOpen Line.isBlank before) (hafter : Text.StartsOpen Line.isBlank after)
    (hs : ∀ l ∈ s.header :: s.body, l.isBlank = false) :
    sectionsIn (before ++ (s.header :: s.body ++ after)) =
      sectionsIn before ++ s :: sectionsIn after := by
  rw [sectionsIn, Text.stretches_between hbefore hafter (List.cons_ne_nil _ _) hs,
    List.filterMap_append]
  rfl

/-- A section stands between two blank lines, or the ends. -/
theorem exists_of_mem_sectionsIn {ls : List Line} {s : Section} (h : s ∈ sectionsIn ls) :
    ∃ before after, ls = before ++ (s.header :: s.body ++ after) ∧
      Text.EndsOpen Line.isBlank before ∧ Text.StartsOpen Line.isBlank after ∧
        ∀ l ∈ s.header :: s.body, l.isBlank = false := by
  obtain ⟨piece, hpiece, hsection⟩ := List.mem_filterMap.mp h
  obtain ⟨before, after, hls, hbefore, hafter, hne, hblank⟩ := Text.exists_of_mem_stretches hpiece
  cases piece with
  | nil => exact absurd rfl hne
  | cons header body =>
    obtain rfl := Option.some.inj hsection
    exact ⟨before, after, hls, hbefore, hafter, hblank⟩

/-- Two sections with a blank line between them. -/
theorem sectionsIn_pair (upper lower : Section) {before after : List Line} {blank : Line}
    (hbefore : Text.EndsOpen Line.isBlank before) (hafter : Text.StartsOpen Line.isBlank after)
    (hupper : ∀ l ∈ upper.header :: upper.body, l.isBlank = false)
    (hblank : blank.isBlank = true)
    (hlower : ∀ l ∈ lower.header :: lower.body, l.isBlank = false) :
    sectionsIn (before ++ (upper.header :: upper.body ++
        (blank :: (lower.header :: lower.body ++ after)))) =
      sectionsIn before ++ upper :: lower :: sectionsIn after := by
  have hends : Text.EndsOpen Line.isBlank [blank] := by simp [Text.EndsOpen, hblank]
  have hnone : sectionsIn [blank] = [] := by
    simp [sectionsIn, Text.stretches, Text.splitBy, hblank]
  have hlast : sectionsIn (blank :: (lower.header :: lower.body ++ after)) =
      lower :: sectionsIn after := by
    rw [← List.singleton_append, sectionsIn_between hends hafter hlower, hnone, List.nil_append]
  rw [sectionsIn_between hbefore (by simp [Text.StartsOpen, hblank]) hupper, hlast]

/-- A line of a text has no line feed in it and no white space at its end, and is no comment. -/
theorem trimmed_of_mem_linesOf {text : String} {l : Line} (h : l ∈ linesOf text) :
    '\n' ∉ l.text ∧ Text.trimRight l.text = l.text ∧ l.isComment = false := by
  rw [linesOf_eq_filter] at h
  obtain ⟨hl, hcomment⟩ := List.mem_filter.mp h
  obtain ⟨⟨cs, i⟩, hcs, rfl⟩ := List.mem_map.mp hl
  refine ⟨fun hnewline => ?_, Text.trimRight_trimRight cs, by simpa using hcomment⟩
  exact Text.newline_notMem_lines (List.fst_mem_of_mem_zipIdx hcs)
    (Text.mem_of_mem_trimRight hnewline)

theorem linesOf_cutSection {text : String} {s : Section} (hheader : s.header ∈ linesOf text)
    {before after : List Line} {l : Line} (hlines : linesOf text = before ++ l :: after) :
    linesOf (cutSection text s l) = before ++ l :: ⟨l.number + 1, []⟩ ::
      ⟨l.number + 2, s.header.text⟩ :: after.map (Line.moved 2) := by
  obtain ⟨hnewline, htrim, hcomment⟩ := trimmed_of_mem_linesOf hheader
  have hput : numbered l.number [[], s.header.text] =
      [⟨l.number + 1, []⟩, ⟨l.number + 2, s.header.text⟩] := by
    rw [numbered]
    simp only [List.zipIdx_cons, List.zipIdx_nil, List.map_cons, List.map_nil, htrim]
    rfl
  have hkept : Line.isComment ⟨l.number + 2, s.header.text⟩ = false := hcomment
  have hblank : Line.isComment ⟨l.number + 1, []⟩ = false := rfl
  rw [cutSection, linesOf_insertLines hlines (by simpa using hnewline), hput]
  simp [hkept, hblank]

/-- **A section in two pieces.** The sections before it stay as they are, those behind it move. -/
theorem sections_cutSection {text : String} {s : Section} (hs : s ∈ sections text)
    {first rest : List Line} {l : Line} (hbody : s.body = first ++ l :: rest) :
    ∃ before after, sections text = before ++ s :: after ∧
      sections (cutSection text s l) = before ++ ⟨s.header, first ++ [l]⟩ ::
        ⟨⟨l.number + 2, s.header.text⟩, rest.map (Line.moved 2)⟩ ::
          after.map (Section.moved 2) := by
  obtain ⟨before, after, hlines, hbefore, hafter, hs⟩ := exists_of_mem_sectionsIn hs
  refine ⟨sectionsIn before, sectionsIn after, ?_, ?_⟩
  · rw [← sectionsIn_between hbefore hafter hs, ← hlines]
    rfl
  · have hsplit : linesOf text = (before ++ s.header :: first) ++ l :: (rest ++ after) := by
      rw [hlines, hbody]
      simp
    have hcut := linesOf_cutSection (s := s) (by rw [hlines]; simp) hsplit
    have hupper : ∀ k ∈ s.header :: (first ++ [l]), k.isBlank = false := by
      grind
    have hlower : ∀ k ∈ (⟨l.number + 2, s.header.text⟩ : Line) :: rest.map (Line.moved 2),
        k.isBlank = false := by
      intro k hk
      rcases List.mem_cons.mp hk with rfl | hk
      · exact hs s.header List.mem_cons_self
      · obtain ⟨k', hk', rfl⟩ := List.mem_map.mp hk
        exact hs k' (by simp [hbody, hk'])
    have hmoved : Text.StartsOpen Line.isBlank (after.map (Line.moved 2)) := by
      intro k hk
      rw [List.head?_map] at hk
      obtain ⟨k', hk', rfl⟩ := Option.map_eq_some_iff.mp hk
      exact hafter k' hk'
    have hblank : Line.isBlank ⟨l.number + 1, []⟩ = true := rfl
    have hpair := sectionsIn_pair ⟨s.header, first ++ [l]⟩
      ⟨⟨l.number + 2, s.header.text⟩, rest.map (Line.moved 2)⟩ hbefore hmoved hupper hblank hlower
    rw [← sectionsIn_moved, ← hpair]
    show sectionsIn (linesOf (cutSection text s l)) = _
    rw [hcut]
    simp

end FactLift.FactFile
