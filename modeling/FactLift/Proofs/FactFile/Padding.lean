import Mathlib.Logic.Relation
import FactLift.Proofs.FactFile.LineNumbers
import FactLift.Proofs.FactFile.Numbering

/-! Lines that count for nothing.

A text is padded with comments anywhere, and with blank lines at its ends and next to others
(`Padded`). A comment goes before the lines are cut into sections, so it neither cuts a section in
two nor keeps two apart; a blank line that comes behind another cuts where a cut is already. So one
more line leaves the texts of the sections as they are (`Padded.sectionTexts_eq`), and with them
whatever is read, or the error, but for its line (`load_of_padded`). -/

namespace FactLift.FactFile

/-- Whether there is nothing but white space on a line. -/
def isBlankText (cs : List Char) : Bool :=
  cs.all Text.isBlank

/-- Whether a line starts with `#`, but for white space. -/
def isCommentText (cs : List Char) : Bool :=
  (Text.trimLeft cs).head? == some '#'

/-- One line more that counts for nothing: a comment, or a blank line at an end or next to a blank
line. -/
inductive Padded : List (List Char) → List (List Char) → Prop
  | comment {l : List Char} (hl : isCommentText l) (before after : List (List Char)) :
      Padded (before ++ after) (before ++ l :: after)
  | blank {l : List Char} (hl : isBlankText l) (before after : List (List Char))
      (hnext : Text.EndsOpen isBlankText before ∨ Text.StartsOpen isBlankText after) :
      Padded (before ++ after) (before ++ l :: after)

/-! ### The texts of the sections -/

/-- The lines that are no comments, without the white space at their ends. -/
def textsOf (raw : List (List Char)) : List (List Char) :=
  (raw.map Text.trimRight).filter fun l => !isCommentText l

def sectionTexts (raw : List (List Char)) : List (List (List Char)) :=
  Text.stretches isBlankText (textsOf raw)

theorem isBlank_eq : Line.isBlank = isBlankText ∘ Line.text := by
  funext l
  rw [Bool.eq_iff_iff, Line.isBlank, List.isEmpty_iff, Text.trim_eq_nil]
  exact List.all_eq_true.symm

theorem map_text_numbered (n : Nat) (raw : List (List Char)) :
    ((numbered n raw).filter fun l => !l.isComment).map Line.text = textsOf raw := by
  have htexts : (numbered n raw).map Line.text = raw.map Text.trimRight := by
    rw [numbered, List.map_map]
    refine Eq.trans ?_ (congrArg (List.map Text.trimRight) (List.zipIdx_map_fst n raw))
    rw [List.map_map]
    rfl
  rw [textsOf, ← htexts, List.filter_map]
  rfl

def Section.texts (s : Section) : List (List Char) :=
  s.header.text :: s.body.map Line.text

/-- The sections of a text, without the numbers of their lines. -/
theorem map_texts_sections (text : String) :
    (sections text).map Section.texts = sectionTexts (Text.lines text.toList) := by
  have hsection : ∀ piece ∈ Text.stretches Line.isBlank (linesOf text),
      (sectionOf? piece).map Section.texts = some (piece.map Line.text) := by
    intro piece hpiece
    obtain ⟨-, -, -, -, -, hne, -⟩ := Text.exists_of_mem_stretches hpiece
    cases piece with
    | nil => exact absurd rfl hne
    | cons header body => rfl
  rw [sections, List.map_filterMap, List.filterMap_congr hsection, List.filterMap_eq_map',
    sectionTexts, ← map_text_numbered 0, Text.stretches_map, isBlank_eq, linesOf_eq_filter]

theorem Section.same_of_texts_eq {s s' : Section} (h : s.texts = s'.texts) : s.Same s' := by
  obtain ⟨hheader, hbody⟩ := List.cons.inj h
  rw [← List.forall₂_eq_eq_eq, List.forall₂_map_left_iff, List.forall₂_map_right_iff] at hbody
  exact ⟨hheader, hbody⟩

/-- The texts of their lines are all that sections have but for the numbers. -/
theorem same_of_texts_eq {ss ss' : List Section}
    (h : ss.map Section.texts = ss'.map Section.texts) : List.Forall₂ Section.Same ss ss' := by
  rw [← List.forall₂_eq_eq_eq, List.forall₂_map_left_iff, List.forall₂_map_right_iff] at h
  exact h.imp fun _ _ => Section.same_of_texts_eq

/-! ### One line more -/

theorem isBlankText_trimRight (l : List Char) :
    isBlankText (Text.trimRight l) = isBlankText l := by
  obtain ⟨blanks, hl, hblanks⟩ := Text.exists_eq_trimRight_append l
  have hall : blanks.all Text.isBlank = true := List.all_eq_true.mpr hblanks
  conv_rhs => rw [hl, isBlankText, List.all_append, hall, Bool.and_true]
  rfl

theorem isCommentText_trimRight (l : List Char) :
    isCommentText (Text.trimRight l) = isCommentText l := by
  obtain ⟨blanks, hl, hblanks⟩ := Text.exists_eq_trimRight_append l
  have hhead : (Text.trimLeft l).head? = (Text.trimLeft (Text.trimRight l)).head? := by
    conv_lhs => rw [hl, Text.trimLeft, List.dropWhile_append]
    split
    next hnil =>
      rw [List.dropWhile_eq_nil_iff.mpr hblanks, Text.trimLeft, List.isEmpty_iff.mp hnil]
    next hne =>
      rw [List.head?_append_of_ne_nil _ (by simpa using hne), Text.trimLeft]
  rw [isCommentText, isCommentText, hhead]

/-- A blank line is no comment. -/
theorem isCommentText_of_isBlankText {l : List Char} (h : isBlankText l) :
    isCommentText l = false := by
  have hnil : Text.trimLeft l = [] := List.dropWhile_eq_nil_iff.mpr (List.all_eq_true.mp h)
  rw [isCommentText, hnil]
  rfl

theorem textsOf_append (as bs : List (List Char)) :
    textsOf (as ++ bs) = textsOf as ++ textsOf bs := by
  simp [textsOf]

theorem textsOf_cons_of_isBlankText {l : List Char} (h : isBlankText l) (ls : List (List Char)) :
    textsOf (l :: ls) = Text.trimRight l :: textsOf ls := by
  simp [textsOf, isCommentText_trimRight, isCommentText_of_isBlankText h]

/-- A blank line at the end stays there when the comments go. -/
theorem endsOpen_textsOf {before : List (List Char)} (h : Text.EndsOpen isBlankText before) :
    Text.EndsOpen isBlankText (textsOf before) := by
  rcases List.eq_nil_or_concat before with rfl | ⟨front, l, rfl⟩
  · simp [textsOf, Text.EndsOpen]
  · have hl : isBlankText l := h l (by simp)
    rw [List.concat_eq_append, textsOf_append, textsOf_cons_of_isBlankText hl]
    simpa [textsOf, Text.EndsOpen, isBlankText_trimRight] using hl

theorem startsOpen_textsOf {after : List (List Char)} (h : Text.StartsOpen isBlankText after) :
    Text.StartsOpen isBlankText (textsOf after) := by
  cases after with
  | nil => simp [textsOf, Text.StartsOpen]
  | cons l rest =>
    have hl : isBlankText l := h l (by simp)
    rw [textsOf_cons_of_isBlankText hl]
    simpa [Text.StartsOpen, isBlankText_trimRight] using hl

/-- **One line more** leaves the texts of the sections as they are. -/
theorem Padded.sectionTexts_eq {raw raw' : List (List Char)} (h : Padded raw raw') :
    sectionTexts raw = sectionTexts raw' := by
  cases h with
  | comment hl before after => simp [sectionTexts, textsOf, isCommentText_trimRight, hl]
  | @blank l hl before after hnext =>
    have hcut : isBlankText (Text.trimRight l) := by rwa [isBlankText_trimRight]
    -- With the blank line and without it, the lines before and behind it are cut apart.
    rw [sectionTexts, sectionTexts, textsOf_append, textsOf_append, textsOf_cons_of_isBlankText hl,
      Text.stretches_append_cons _ _ hcut]
    rcases hnext with hbefore | hafter
    · exact Text.stretches_append_of_endsOpen (endsOpen_textsOf hbefore) _
    · exact Text.stretches_append_of_startsOpen _ (startsOpen_textsOf hafter)

/-- Any number of lines more do so, too. -/
theorem sectionTexts_eq_of_padded {raw raw' : List (List Char)}
    (h : Relation.ReflTransGen Padded raw raw') : sectionTexts raw = sectionTexts raw' := by
  induction h with
  | refl => rfl
  | tail _ hstep ih => exact ih.trans hstep.sectionTexts_eq

/-! ### Texts -/

/-- **Comments and blank lines count for nothing.** Texts whose lines differ in comments anywhere,
and in blank lines at the ends and next to others, are loaded as the same program, or refused with
the same error but for its line. -/
theorem load_of_padded {text text' : String}
    (h : Relation.ReflTransGen Padded (Text.lines text.toList) (Text.lines text'.toList)) :
    Alike Eq (load text).1 (load text').1 := by
  refine load_alike (same_of_texts_eq ?_)
  rw [map_texts_sections, map_texts_sections, sectionTexts_eq_of_padded h]

/-- A comment between the lines of a section, a second blank line and a last one. -/
theorem load_of_padded_strings :
    Alike Eq
      (load (String.ofList (Text.joinLines
        ["PROGRAM p".toList, [], "STRINGS".toList, "a # b".toList]))).1
      (load (String.ofList (Text.joinLines
        ["PROGRAM p".toList, [], [' '], "STRINGS".toList, "  # one".toList, "a # b".toList,
          []]))).1 := by
  refine load_of_padded ?_
  rw [Text.lines_ofList_joinLines (by decide), Text.lines_ofList_joinLines (by decide)]
  have hcomment := Padded.comment (l := "  # one".toList) (by decide)
    ["PROGRAM p".toList, [], "STRINGS".toList] ["a # b".toList]
  have hnext := Padded.blank (l := [' ']) (by decide) ["PROGRAM p".toList, []]
    ["STRINGS".toList, "  # one".toList, "a # b".toList]
    (.inl (by simp [Text.EndsOpen, isBlankText]))
  have hlast := Padded.blank (l := []) (by decide)
    ["PROGRAM p".toList, [], [' '], "STRINGS".toList, "  # one".toList, "a # b".toList] []
    (.inr (by simp [Text.StartsOpen]))
  exact .tail (.tail (.single hcomment) hnext) hlast

end FactLift.FactFile
