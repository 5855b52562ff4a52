import FactLift.Text.Blank
import Mathlib.Data.List.DropRight

/-! Text cut into pieces, and put together again.

Cutting at a separator cuts both sides apart (`stretches_append_cons`), so a stretch can be taken
out of what it was found in with what is before and behind it (`exists_of_mem_stretches`). Lines
that are written one to a line are read back (`lines_joinLines`), and so is a text that has white
space put around it (`trim_of_blank`) or is put before a mark (`splitOnce_append`). -/

namespace FactLift.Text

variable {α : Type} {p : α → Bool}

/-- Cutting is the library's. -/
theorem splitBy_eq_splitOnP (p : α → Bool) (as : List α) : splitBy p as = as.splitOnP p := by
  induction as with
  | nil => simp [splitBy]
  | cons a as ih =>
    rw [splitBy, ih, List.splitOnP_cons_eq_if_modifyHead]
    cases hpieces : as.splitOnP p with
    | nil => exact absurd hpieces (List.splitOnP_ne_nil p as)
    | cons piece pieces => rfl

/-! ### Stretches -/

theorem stretches_append_cons (as bs : List α) {x : α} (hx : p x = true) :
    stretches p (as ++ x :: bs) = stretches p as ++ stretches p bs := by
  simp only [stretches, splitBy_eq_splitOnP]
  rw [List.splitOnP_append_cons as bs hx, List.filter_append]

/-- What has no separator in it is one stretch. -/
theorem stretches_of_forall {as : List α} (hne : as ≠ []) (h : ∀ a ∈ as, p a = false) :
    stretches p as = [as] := by
  rw [stretches, splitBy_eq_splitOnP, List.splitOnP_eq_singleton h]
  simp [hne]

theorem stretches_nil : stretches p ([] : List α) = [] := rfl

theorem splitBy_map {β : Type} (f : β → α) (bs : List β) :
    splitBy p (bs.map f) = (splitBy (p ∘ f) bs).map (List.map f) := by
  induction bs with
  | nil => rfl
  | cons b bs ih =>
    rw [List.map_cons, splitBy, ih, splitBy]
    cases splitBy (p ∘ f) bs with
    | nil => rfl
    | cons piece pieces => by_cases hb : p (f b) <;> simp [hb]

theorem stretches_map {β : Type} (f : β → α) (bs : List β) :
    stretches p (bs.map f) = (stretches (p ∘ f) bs).map (List.map f) := by
  have hempty : (fun piece : List α => !piece.isEmpty) ∘ List.map f =
      fun piece : List β => !piece.isEmpty := by
    funext piece
    cases piece <;> rfl
  rw [stretches, splitBy_map, List.filter_map, hempty, stretches]

/-- Elements that nothing comes before, or that come after a separator. -/
def EndsOpen (p : α → Bool) (as : List α) : Prop :=
  ∀ a ∈ as.getLast?, p a = true

/-- Elements that nothing comes behind, or that come before a separator. -/
def StartsOpen (p : α → Bool) (as : List α) : Prop :=
  ∀ a ∈ as.head?, p a = true

theorem stretches_append_of_endsOpen {as : List α} (h : EndsOpen p as) (bs : List α) :
    stretches p (as ++ bs) = stretches p as ++ stretches p bs := by
  rcases List.eq_nil_or_concat as with rfl | ⟨before, x, rfl⟩
  · rfl
  · have hx : p x = true := h x (by simp)
    rw [List.concat_eq_append, List.append_assoc, List.singleton_append,
      stretches_append_cons _ _ hx, stretches_append_cons _ _ hx, stretches_nil, List.append_nil]

theorem stretches_append_of_startsOpen (as : List α) {bs : List α} (h : StartsOpen p bs) :
    stretches p (as ++ bs) = stretches p as ++ stretches p bs := by
  cases bs with
  | nil => rw [List.append_nil, stretches_nil, List.append_nil]
  | cons x rest =>
    have hx : p x = true := h x (by simp)
    have hrest := stretches_append_cons [] rest hx
    rw [List.nil_append, stretches_nil, List.nil_append] at hrest
    rw [stretches_append_cons as rest hx, hrest]

/-- A stretch between two separators, or the ends. -/
theorem stretches_between {as piece bs : List α} (has : EndsOpen p as) (hbs : StartsOpen p bs)
    (hne : piece ≠ []) (hpiece : ∀ a ∈ piece, p a = false) :
    stretches p (as ++ (piece ++ bs)) = stretches p as ++ piece :: stretches p bs := by
  rw [stretches_append_of_endsOpen has, stretches_append_of_startsOpen _ hbs,
    stretches_of_forall hne hpiece, List.singleton_append]

/-- The first piece and the others: there is one piece, or a separator behind the first. -/
theorem splitBy_cases (p : α → Bool) (as : List α) :
    ((∀ a ∈ as, p a = false) ∧ splitBy p as = [as]) ∨
      ∃ first x rest, as = first ++ x :: rest ∧ p x = true ∧ (∀ a ∈ first, p a = false) ∧
        splitBy p as = first :: splitBy p rest := by
  simp only [splitBy_eq_splitOnP]
  have hfirst : ∀ a ∈ as.takeWhile (!p ·), p a = false := by
    intro a ha
    simpa using List.all_eq_true.mp List.all_takeWhile a ha
  have has := List.takeWhile_append_dropWhile (p := (!p ·)) (l := as)
  cases hdrop : as.dropWhile (!p ·) with
  | nil =>
    rw [hdrop, List.append_nil] at has
    rw [has] at hfirst
    exact .inl ⟨hfirst, List.splitOnP_eq_singleton hfirst⟩
  | cons x rest =>
    have hx : p x = true := by
      have hhead := List.head?_dropWhile_not (!p ·) as
      rw [hdrop] at hhead
      simpa using hhead
    rw [hdrop] at has
    have hsplit := List.splitOnP_append_cons_of_forall_mem hfirst x hx rest
    rw [has] at hsplit
    exact .inr ⟨_, x, rest, has.symm, hx, hfirst, hsplit⟩

theorem exists_of_mem_splitBy {as piece : List α} (h : piece ∈ splitBy p as) :
    ∃ before after, as = before ++ (piece ++ after) ∧ EndsOpen p before ∧ StartsOpen p after ∧
      ∀ a ∈ piece, p a = false := by
  induction hn : as.length using Nat.strongRecOn generalizing as with
  | ind n ih =>
    rcases splitBy_cases p as with ⟨hall, hone⟩ | ⟨first, x, rest, rfl, hx, hfirst, hmore⟩
    · rw [hone, List.mem_singleton] at h
      subst h
      exact ⟨[], [], by simp, by simp [EndsOpen], by simp [StartsOpen], hall⟩
    · rw [hmore, List.mem_cons] at h
      rcases h with rfl | h
      · exact ⟨[], x :: rest, by simp, by simp [EndsOpen], by simp [StartsOpen, hx], hfirst⟩
      · obtain ⟨before, after, rfl, hbefore, hafter, hpiece⟩ :=
          ih rest.length (by rw [← hn]; simp; omega) h rfl
        refine ⟨first ++ x :: before, after, by simp, ?_, hafter, hpiece⟩
        intro a ha
        rw [Option.mem_def, List.getLast?_append, List.getLast?_cons, Option.some_or] at ha
        cases hlast : before.getLast? with
        | none =>
          obtain rfl : x = a := by simpa [hlast] using ha
          exact hx
        | some y =>
          obtain rfl : y = a := by simpa [hlast] using ha
          exact hbefore y hlast

/-- A stretch stands between two separators, or the ends. -/
theorem exists_of_mem_stretches {as piece : List α} (h : piece ∈ stretches p as) :
    ∃ before after, as = before ++ (piece ++ after) ∧ EndsOpen p before ∧ StartsOpen p after ∧
      piece ≠ [] ∧ ∀ a ∈ piece, p a = false := by
  obtain ⟨hmem, hne⟩ := List.mem_filter.mp h
  obtain ⟨before, after, has, hbefore, hafter, hpiece⟩ := exists_of_mem_splitBy hmem
  exact ⟨before, after, has, hbefore, hafter, by simpa using hne, hpiece⟩

/-! ### Lines -/

/-- Lines, each with a line feed behind it. -/
def joinLines (lines : List (List Char)) : List Char :=
  lines.flatMap (· ++ ['\n'])

theorem newline_notMem_lines {cs l : List Char} (h : l ∈ lines cs) : '\n' ∉ l := by
  have hmem : l ∈ splitBy (· == '\n') cs := by
    simp only [lines] at h
    split at h
    · exact List.dropLast_subset _ h
    · exact h
  obtain ⟨-, -, -, -, -, hl⟩ := exists_of_mem_splitBy hmem
  intro hnewline
  simpa using hl '\n' hnewline

/-- Lines that are written are read back. -/
theorem lines_joinLines {ls : List (List Char)} (h : ∀ l ∈ ls, '\n' ∉ l) :
    lines (joinLines ls) = ls := by
  have hsplit : splitBy (· == '\n') (joinLines ls) = ls ++ [[]] := by
    induction ls with
    | nil => rfl
    | cons l ls ih =>
      have hl : ∀ a ∈ l, (a == '\n') = false := by
        intro a ha
        have hne : a ≠ '\n' := fun heq => h l List.mem_cons_self (heq ▸ ha)
        simpa using hne
      have hjoin : joinLines (l :: ls) = l ++ '\n' :: joinLines ls := by simp [joinLines]
      rw [hjoin, splitBy_eq_splitOnP, List.splitOnP_append_cons_of_forall_mem hl '\n' rfl,
        ← splitBy_eq_splitOnP, ih fun l' hl' => h l' (List.mem_cons_of_mem l hl')]
      rfl
  simp [lines, hsplit]

theorem lines_ofList_joinLines {ls : List (List Char)} (h : ∀ l ∈ ls, '\n' ∉ l) :
    lines (String.ofList (joinLines ls)).toList = ls := by
  rw [String.toList_ofList, lines_joinLines h]

/-! ### White space -/

theorem trimRight_append_of_blank (cs : List Char) {blanks : List Char}
    (h : ∀ c ∈ blanks, isBlank c) : trimRight (cs ++ blanks) = trimRight cs := by
  rw [trimRight, List.reverse_append, List.dropWhile_append_of_pos (by simpa using h), trimRight]

/-- White space around a text is dropped. -/
theorem trim_of_blank {front back : List Char} (hfront : ∀ c ∈ front, isBlank c) (cs : List Char)
    (hback : ∀ c ∈ back, isBlank c) : trim (front ++ (cs ++ back)) = trim cs := by
  rw [trim, trimLeft, List.dropWhile_append_of_pos hfront, List.dropWhile_append]
  split
  next hnil =>
    rw [List.dropWhile_eq_nil_iff.mpr hback, trim, trimLeft, List.isEmpty_iff.mp hnil]
  next => rw [trimRight_append_of_blank _ hback, trim, trimLeft]

theorem trim_eq_nil {cs : List Char} : trim cs = [] ↔ ∀ c ∈ cs, isBlank c := by
  constructor
  · intro h
    have hleft : ∀ c ∈ trimLeft cs, isBlank c := by
      simpa [trim, trimRight] using h
    rw [← List.takeWhile_append_dropWhile (p := isBlank) (l := cs)]
    intro c hc
    rcases List.mem_append.mp hc with hc | hc
    · exact List.mem_takeWhile_imp hc
    · exact hleft c hc
  · intro h
    rw [trim, trimLeft, List.dropWhile_eq_nil_iff.mpr h]
    rfl

/-- A text is what is left of it without the white space at its end, and that white space. -/
theorem exists_eq_trimRight_append (cs : List Char) :
    ∃ blanks, cs = trimRight cs ++ blanks ∧ ∀ c ∈ blanks, isBlank c := by
  refine ⟨(cs.reverse.takeWhile isBlank).reverse, ?_, fun c hc => ?_⟩
  · rw [trimRight, ← List.reverse_append, List.takeWhile_append_dropWhile, List.reverse_reverse]
  · exact List.mem_takeWhile_imp (List.mem_reverse.mp hc)

theorem trim_trimRight (cs : List Char) : trim (trimRight cs) = trim cs := by
  obtain ⟨blanks, hcs, hblanks⟩ := exists_eq_trimRight_append cs
  have hnone : ∀ c ∈ ([] : List Char), isBlank c := by simp
  conv_rhs => rw [hcs]
  exact (trim_of_blank hnone (trimRight cs) hblanks).symm

/-- What comes before a character that is no white space stays. -/
theorem trimRight_append_cons {c : Char} (hc : isBlank c = false) (as bs : List Char) :
    trimRight (as ++ c :: bs) = as ++ c :: trimRight bs := by
  rw [trimRight, List.reverse_append, List.reverse_cons, List.append_assoc, List.singleton_append,
    List.dropWhile_append]
  split
  next hnil => simp [trimRight, List.isEmpty_iff.mp hnil, hc]
  next => simp [trimRight]

/-- A text with no white space at its ends. -/
structure IsTrimmed (cs : List Char) : Prop where
  head : ∀ c ∈ cs.head?, isBlank c = false
  last : ∀ c ∈ cs.getLast?, isBlank c = false

instance (cs : List Char) : Decidable (IsTrimmed cs) :=
  decidable_of_iff (cs.head?.all (!isBlank ·) ∧ cs.getLast?.all (!isBlank ·))
    ⟨fun ⟨hhead, hlast⟩ =>
        ⟨by simpa [Option.all_eq_true] using hhead, by simpa [Option.all_eq_true] using hlast⟩,
      fun h => ⟨by simpa [Option.all_eq_true] using h.head,
        by simpa [Option.all_eq_true] using h.last⟩⟩

theorem IsTrimmed.trim_eq {cs : List Char} (h : IsTrimmed cs) : trim cs = cs := by
  have hleft : trimLeft cs = cs := by
    cases cs with
    | nil => rfl
    | cons c cs => exact List.dropWhile_cons_of_neg (by simp [h.head c rfl])
  rw [trim, hleft]
  rcases List.eq_nil_or_concat cs with rfl | ⟨front, c, rfl⟩
  · rfl
  · rw [List.concat_eq_append]
    exact trimRight_append_cons (h.last c (by simp)) front []

theorem isTrimmed_of_forall {cs : List Char} (h : ∀ c ∈ cs, isBlank c = false) : IsTrimmed cs :=
  ⟨fun c hc => h c (List.mem_of_mem_head? hc), fun c hc => h c (List.mem_of_mem_getLast? hc)⟩

/-- Two texts with something between them. -/
theorem IsTrimmed.append {as bs : List Char} (ha : IsTrimmed as) (hane : as ≠ [])
    (hb : IsTrimmed bs) (hbne : bs ≠ []) (between : List Char) :
    IsTrimmed (as ++ between ++ bs) where
  head c hc := by
    rw [List.append_assoc, List.head?_append_of_ne_nil _ hane] at hc
    exact ha.head c hc
  last c hc := by
    rw [List.getLast?_append_of_ne_nil _ hbne] at hc
    exact hb.last c hc

theorem trimRight_trimRight (cs : List Char) : trimRight (trimRight cs) = trimRight cs := by
  unfold trimRight
  rw [List.reverse_reverse]
  congr 1
  exact List.dropWhile_idempotent isBlank _

theorem mem_of_mem_trimRight {c : Char} {cs : List Char} (h : c ∈ trimRight cs) : c ∈ cs := by
  have hmem := (List.dropWhile_sublist _).mem (List.mem_reverse.mp h)
  exact List.mem_reverse.mp hmem

/-! ### Words -/

theorem words_append_cons {w : List Char} (hne : w ≠ []) (hw : ∀ c ∈ w, isBlank c = false)
    {c : Char} (hc : isBlank c = true) (cs : List Char) :
    words (w ++ c :: cs) = w :: words cs := by
  rw [words, stretches_append_cons _ _ hc, stretches_of_forall hne hw, List.singleton_append, words]

/-- White space at the end of a text has no word in it. -/
theorem words_trimRight (cs : List Char) : words (trimRight cs) = words cs := by
  obtain ⟨blanks, hcs, hblanks⟩ := exists_eq_trimRight_append cs
  have hnone : words blanks = [] := by
    rw [words, List.eq_nil_iff_forall_not_mem]
    intro piece hpiece
    obtain ⟨before, after, hall, -, -, hne, hblank⟩ := exists_of_mem_stretches hpiece
    obtain ⟨c, rest, rfl⟩ := List.exists_cons_of_ne_nil hne
    have hc := hblanks c (by rw [hall]; simp)
    rw [hblank c List.mem_cons_self] at hc
    cases hc
  conv_rhs => rw [hcs, words, stretches_append_of_startsOpen _ fun c hc =>
    hblanks c (List.mem_of_mem_head? hc)]
  rw [words] at hnone
  rw [hnone, List.append_nil, words]

/-! ### The first mark -/

theorem splitOnce_append {mark : Char} {as : List Char} (h : mark ∉ as) (bs : List Char) :
    splitOnce mark (as ++ mark :: bs) = some (as, bs) := by
  induction as with
  | nil => simp [splitOnce, splitFirst]
  | cons a as ih =>
    have ha : (a == mark) = false := by simpa using (List.ne_of_not_mem_cons h).symm
    rw [splitOnce] at ih ⊢
    rw [List.cons_append, splitFirst, ha, ih (List.not_mem_of_not_mem_cons h)]
    rfl

end FactLift.Text
