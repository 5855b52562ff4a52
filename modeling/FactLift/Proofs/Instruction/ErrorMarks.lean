import FactLift.Proofs.Instruction.Decode
import FactLift.Proofs.Roster

/-! Values that are marked as not available.

The argument `-2` marks a value as not available. Under the letters of results and of committed
expressions it leaves a gap in the field, at the rank of the argument among those of its letter
(`Locates`), and a record with a gap is not in order. Everywhere else it makes no difference:
putting a mark in the place of a committed variable, of a base update or of a returned value leaves
the gaps as they are (`decodeRecord_marked`). -/

namespace FactLift

open FactLift.Sym

/-! ### Gaps -/

section Gaps

variable {α : Type} {facts : List (Fact α)} {get : Nat → Except Error α} {args : List Int64}

theorem mem_gaps {n : Nat} :
    n ∈ Fact.gaps facts ↔ ∃ f, facts[n]? = some f ∧ f.isPresent = false := by
  simp [Fact.gaps, List.mem_zipIdx_iff_getElem?]

theorem gaps_ascending (facts : List (Fact α)) : (Fact.gaps facts).Pairwise (· < ·) := by
  have hplaces : (facts.zipIdx.map (·.2)).Pairwise (· < ·) := by
    rw [List.zipIdx_map_snd]
    exact List.pairwise_lt_range'
  exact hplaces.sublist (List.filter_sublist.map _)

theorem all_isPresent_iff : facts.all Fact.isPresent = true ↔ Fact.gaps facts = [] := by
  rw [List.all_eq_true, List.eq_nil_iff_forall_not_mem]
  simp only [mem_gaps]
  constructor
  · rintro h n ⟨f, hf, habsent⟩
    rw [h f (List.mem_of_getElem? hf)] at habsent
    cases habsent
  · intro h f hf
    obtain ⟨n, hn⟩ := List.mem_iff_getElem?.mp hf
    exact Bool.of_not_eq_false fun habsent => h n ⟨f, hn, habsent⟩

theorem Decoded.isOk_iff (d : Decoded) : d.isOk = true ↔ d.gaps = ([], [], []) := by
  simp only [Decoded.isOk, Decoded.gaps, Bool.and_eq_true, all_isPresent_iff, Prod.mk.injEq,
    and_assoc]

theorem MayRefer.isPresent_iff {raw : Int64} {f : Fact α} (h : MayRefer get raw f) :
    f.isPresent = false ↔ raw = -2 := by
  cases h with
  | present hraw =>
    refine iff_of_false nofun ?_
    rintro rfl
    exact not_refers_of_neg (by decide) _ hraw
  | failed hmark => exact iff_of_true rfl hmark

theorem mayRefer_unique : Relator.RightUnique (MayRefer get) := by
  intro raw f f' h h'
  have hf : optional 0 0 raw get = .ok f := optional_eq_ok.mpr h
  have hf' : optional 0 0 raw get = .ok f' := optional_eq_ok.mpr h'
  exact Except.ok.inj (hf.symm.trans hf')

/-- The gaps of a field are where the marks of its arguments are. -/
theorem mem_gaps_iff (h : List.Forall₂ (MayRefer get) args facts) {n : Nat} :
    n ∈ Fact.gaps facts ↔ args[n]? = some (-2) := by
  rw [mem_gaps]
  induction h generalizing n with
  | nil => simp
  | cons hfact _ ih =>
    cases n with
    | zero => simp [hfact.isPresent_iff]
    | succ n => simpa using ih

end Gaps

/-! ### Ranks -/

section Ranks

variable {form : KeyForm} {field : KeyField} {letter : Char} {letters : List Char}
  {args : List Int64}

theorem argsUnder_cons (first : Char) (letters : List Char) (raw : Int64) (args : List Int64) :
    argsUnder form field (first :: letters) (raw :: args) =
      if form.field? first = some field then raw :: argsUnder form field letters args
      else argsUnder form field letters args := by
  unfold argsUnder
  rw [List.zip_cons_cons, List.filter_cons]
  split <;> simp_all

/-- An argument under the only letter of a field comes after those whose letters stand before. -/
theorem getElem?_argsUnder (h : ∀ c, form.field? c = some field ↔ c = letter) {n : Nat}
    {raw : Int64} :
    (argsUnder form field letters args)[n]? = some raw ↔
      ∃ position, letters[position]? = some letter ∧ args[position]? = some raw ∧
        n = (letters.take position).count letter := by
  induction letters generalizing args n with
  | nil => simp [argsUnder]
  | cons first letters ih =>
    cases args with
    | nil => simp [argsUnder]
    | cons arg args =>
      -- The first argument comes before all others, if it stands under the letter at all.
      rw [argsUnder_cons, ← Nat.or_exists_add_one]
      by_cases hfirst : first = letter
      · rw [if_pos ((h first).mpr hfirst), hfirst]
        cases n with
        | zero => simp [eq_comm]
        | succ n =>
          rw [List.getElem?_cons_succ, ih]
          simp
      · rw [if_neg (mt (h first).mp hfirst), ih]
        simp [hfirst]

/-- An argument that stands under no letter of a field makes no difference to it. -/
theorem argsUnder_set {position : Nat} (raw : Int64)
    (h : ∀ c, letters[position]? = some c → form.field? c ≠ some field) :
    argsUnder form field letters (args.set position raw) = argsUnder form field letters args := by
  induction letters generalizing args position with
  | nil => simp [argsUnder]
  | cons first letters ih =>
    cases args with
    | nil => rfl
    | cons arg args =>
      cases position with
      | zero =>
        have hfirst : form.field? first ≠ some field := h first rfl
        rw [List.set_cons_zero, argsUnder_cons, argsUnder_cons, if_neg hfirst, if_neg hfirst]
      | succ position =>
        have hrest : ∀ c, letters[position]? = some c → form.field? c ≠ some field := h
        rw [List.set_cons_succ, argsUnder_cons, argsUnder_cons, ih hrest]

/-- These are, in ascending order, the places of the marks among the arguments under a letter. The
place of an argument is how often its letter stands before. -/
structure Locates (letters : List Char) (args : List Int64) (letter : Char)
    (places : List Nat) : Prop where
  ascending : places.Pairwise (· < ·)
  mem_iff : ∀ n, n ∈ places ↔ ∃ position, letters[position]? = some letter ∧
    args[position]? = some (-2) ∧ n = (letters.take position).count letter

theorem Locates.ne_nil_iff {places : List Nat} (h : Locates letters args letter places) :
    places ≠ [] ↔ ∃ position : Nat,
      letters[position]? = some letter ∧ args[position]? = some (-2) := by
  constructor
  · intro hne
    obtain ⟨n, hn⟩ := List.exists_mem_of_ne_nil places hne
    obtain ⟨position, hletter, hmark, -⟩ := (h.mem_iff n).mp hn
    exact ⟨position, hletter, hmark⟩
  · rintro ⟨position, hletter, hmark⟩
    exact List.ne_nil_of_mem ((h.mem_iff _).mpr ⟨position, hletter, hmark, rfl⟩)

theorem locates_gaps {α : Type} {get : Nat → Except Error α} {facts : List (Fact α)}
    (h : ∀ c, form.field? c = some field ↔ c = letter)
    (hfacts : List.Forall₂ (MayRefer get) (argsUnder form field letters args) facts) :
    Locates letters args letter (Fact.gaps facts) where
  ascending := gaps_ascending facts
  mem_iff n := by rw [mem_gaps_iff hfacts, getElem?_argsUnder h]

end Ranks

/-! ### Records -/

section Records

variable {cx : DecodeContext} {r : Record} {d d' : Decoded} {form : KeyForm} {letters : List Char}
  {args args' : List Int64} {position : Nat}

/-- The gaps of a record with results. -/
theorem Collects.locates (h : Collects cx .result letters args d) :
    Locates letters args 'v' (Fact.gaps d.varsResult) ∧
      Locates letters args 'x' (Fact.gaps d.exprsResult) ∧
      Locates letters args 'c' (Fact.gaps d.committedExprs) := by
  refine ⟨locates_gaps (fun c => ?_) h.varsResult, locates_gaps (fun c => ?_) h.exprsResult,
    locates_gaps (fun c => ?_) h.committedExprs⟩
  · simpa using (field?_counted .result c).2.2.1
  · simpa using (field?_counted .result c).2.2.2
  · exact (field?_counted .result c).2.1

/-- In the plain form there are no results, so committed expressions would be too many. -/
theorem Collects.gaps_plain (h : Collects cx .plain letters args d)
    (hlength : letters.length ≤ args.length)
    (hc : letters.count 'c' = 0 ∨ letters.count 'c' = KeyForm.plain.resultCount 'x' letters) :
    d.gaps = ([], [], []) := by
  obtain ⟨-, hvars, hcommitted, hexprs⟩ := h.lengths hlength
  have hnone : letters.count 'c' = 0 := hc.elim id id
  rw [Decoded.gaps, List.eq_nil_of_length_eq_zero hvars, List.eq_nil_of_length_eq_zero hexprs,
    List.eq_nil_of_length_eq_zero (hcommitted.trans hnone)]
  rfl

/-- The fields that may have gaps are the same if the arguments under their letters are. -/
theorem Collects.gaps_eq (h : Collects cx form letters args d)
    (h' : Collects cx form letters args' d')
    (hargs : ∀ field ≠ .committedVars,
      argsUnder form field letters args' = argsUnder form field letters args) :
    d'.gaps = d.gaps := by
  have hvars := hargs .varsResult nofun ▸ h'.varsResult
  have hexprs := hargs .exprsResult nofun ▸ h'.exprsResult
  have hcommitted := hargs .committedExprs nofun ▸ h'.committedExprs
  rw [Decoded.gaps, List.right_unique_forall₂' mayRefer_unique hvars h.varsResult,
    List.right_unique_forall₂' mayRefer_unique hexprs h.exprsResult,
    List.right_unique_forall₂' mayRefer_unique hcommitted h.committedExprs]
  rfl

/-- The record with a mark in the place of an argument. -/
def Record.marked (r : Record) (position : Nat) : Record :=
  { r with content.args := r.args.set position (-2) }

/-- Whether a position is that of a committed variable, of a base update or of a returned value. -/
def Record.IsAside (r : Record) (letters : List Char) (position : Nat) : Prop :=
  letters[position]? = some 'w' ∨
    r.hasBaseUpdate = true ∧ (position = letters.length ∨ position = letters.length + 1) ∨
    r.hasReturnValue = true ∧ position = r.returnPosition letters.length

theorem Record.IsAside.letter (h : r.IsAside letters position) {c : Char}
    (hc : letters[position]? = some c) : c = 'w' := by
  have hlt : position < letters.length := (List.getElem?_eq_some_iff.mp hc).1
  obtain hw | ⟨-, hposition⟩ | ⟨-, hposition⟩ := h
  · exact Option.some.inj (hc.symm.trans hw)
  · omega
  · rw [Record.returnPosition] at hposition
    omega

theorem Record.IsAside.lt_callPosition (h : r.IsAside letters position) :
    position < r.callPosition letters.length := by
  rw [Record.callPosition, Record.returnPosition]
  obtain hw | ⟨htag, hposition⟩ | ⟨htag, hposition⟩ := h
  · have := (List.getElem?_eq_some_iff.mp hw).1
    omega
  · rw [if_pos htag]
    omega
  · rw [if_pos htag, hposition, Record.returnPosition]
    omega

theorem hasCallTarget_marked : (r.marked position).hasCallTarget = r.hasCallTarget := by
  have hlength : (r.marked position).args.length = r.args.length := List.length_set
  unfold Record.hasCallTarget
  rw [hlength]
  rfl

theorem argAt_marked_of_ne {n : Nat} (h : position ≠ n) :
    (r.marked position).argAt n = r.argAt n := by
  simp only [Record.argAt, Record.marked, List.getD_eq_getElem?_getD, List.getElem?_set_ne h]

/-- A mark may stand wherever a value may be missing. -/
theorem admits_marked {α : Type} {get : Nat → Except Error α} {n : Nat}
    (h : (∃ a, Refers get (r.argAt n) a) ∨ r.argAt n = -2) :
    (∃ a, Refers get ((r.marked position).argAt n) a) ∨ (r.marked position).argAt n = -2 := by
  by_cases hn : position = n
  · subst hn
    by_cases hlt : position < r.args.length
    · right
      simp only [Record.argAt, Record.marked, List.getD_eq_getElem?_getD,
        List.getElem?_set_self hlt, Option.getD_some]
    · have hsame : r.marked position = r := by
        simp only [Record.marked, List.set_eq_of_length_le (Nat.le_of_not_lt hlt)]
      rw [hsame]
      exact h
  · rw [argAt_marked_of_ne hn]
    exact h

theorem AdmitsTrailing.marked (h : AdmitsTrailing cx r letters.length)
    (haside : r.IsAside letters position) :
    AdmitsTrailing cx (r.marked position) letters.length where
  baseUpdate htag := ⟨admits_marked (h.baseUpdate htag).1, admits_marked (h.baseUpdate htag).2⟩
  returnValue htag := admits_marked (h.returnValue htag)
  callTarget htag := by
    obtain ⟨s, hs⟩ := h.callTarget (hasCallTarget_marked ▸ htag)
    refine ⟨s, ?_⟩
    rw [← argAt_marked_of_ne (Nat.ne_of_lt haside.lt_callPosition)] at hs
    exact hs

/-- A mark under the letter of a committed variable may stand there. -/
theorem admissible_marked (haside : r.IsAside letters position)
    (h : ∀ p ∈ letters.zip r.args, p.1 ∈ keyLetters ∧ Admissible cx form p.1 p.2) :
    ∀ p ∈ letters.zip (r.marked position).args, p.1 ∈ keyLetters ∧ Admissible cx form p.1 p.2 := by
  rintro ⟨letter, raw⟩ hp
  obtain ⟨n, hn⟩ := List.mem_iff_getElem?.mp hp
  obtain ⟨hletter, hraw⟩ := List.getElem?_zip_eq_some.mp hn
  by_cases hposition : position = n
  · subst hposition
    obtain rfl : letter = 'w' := haside.letter hletter
    obtain ⟨hlt, rfl⟩ := List.getElem?_eq_some_iff.mp hraw
    exact ⟨(by decide : 'w' ∈ keyLetters), .inr (List.getElem_set_self hlt)⟩
  · have hraw : r.args[n]? = some raw := (List.getElem?_set_ne hposition).symm.trans hraw
    exact h _ (List.mem_of_getElem? (List.getElem?_zip_eq_some.mpr ⟨hletter, hraw⟩))

/-- A mark in the place of a committed variable, of a base update or of a returned value makes no
difference to the gaps. -/
theorem decodeRecord_marked (hletters : r.letters? = some (form, letters))
    (haside : r.IsAside letters position) (hd : decodeRecord cx r = .ok d) :
    ∃ d', decodeRecord cx (r.marked position) = .ok d' ∧ d'.gaps = d.gaps := by
  obtain ⟨hcount, entries, t, hentries, ht, hw, hc, rfl⟩ := (decodeRecord_eq_ok hletters).mp hd
  -- Letters and tags are as they were, so each step of decoding succeeds again.
  obtain ⟨entries', hentries'⟩ := exists_forall₂_reads_iff.mpr
    (admissible_marked haside (exists_forall₂_reads_iff.mp ⟨entries, hentries⟩))
  obtain ⟨t', ht'⟩ := exists_readsTrailing_iff.mpr
    ((exists_readsTrailing_iff.mp ⟨t, ht⟩).marked haside)
  have hcount' : (r.marked position).args.length =
      letters.length + (r.marked position).trailingCount := by
    rw [Record.trailingCount, hasCallTarget_marked]
    exact List.length_set.trans hcount
  have hletters' : (r.marked position).letters? = some (form, letters) := hletters
  have hsame : (Decoded.ofEntries entries').gaps = (Decoded.ofEntries entries).gaps := by
    refine (collects_ofEntries hentries).gaps_eq (collects_ofEntries hentries')
      fun field hfield => argsUnder_set (-2) fun c hc => ?_
    rw [haside.letter hc, (field?_counted form 'w').1.mpr rfl]
    exact fun h => hfield (Option.some.inj h).symm
  exact ⟨_, (decodeRecord_eq_ok hletters').mpr
    ⟨hcount', entries', t', hentries', ht', hw, hc, rfl⟩, hsame⟩

theorem isOk_decode (hd : decodeRecord cx r = .ok d) :
    (({ record := r } : InstrFacts).decode cx).isOk = .ok d.isOk :=
  congrArg (fun outcome => do return (← outcome).isOk) hd

theorem gaps_decode (hd : decodeRecord cx r = .ok d) :
    (({ record := r } : InstrFacts).decode cx).gaps = .ok d.gaps :=
  congrArg (fun outcome => do return (← outcome).gaps) hd

end Records

/-- **Marks leave gaps where they stand, and nowhere else.** With results, a record is in order
exactly if no result and no committed expression is marked, and the gaps of each field are where the
marks are, by rank among the arguments of its letter. Without results it is in order and has no
gaps. Marks in the place of committed variables, base updates and returned values make no difference
to that. -/
theorem gaps_locate_marks (cx : DecodeContext) (r : Record) (d : Decoded)
    (hd : (({ record := r } : InstrFacts).decode cx).decoded = .ok d) :
    let f := ({ record := r } : InstrFacts).decode cx
    (∀ letters, r.key.toList = KeyForm.result.mark ++ letters →
      (f.isOk = .ok false ↔ ∃ letter ∈ ['v', 'x', 'c'], ∃ position : Nat,
        letters[position]? = some letter ∧ r.args[position]? = some (-2)) ∧
      ∃ vars exprs committed, f.gaps = .ok (vars, exprs, committed) ∧
        Locates letters r.args 'v' vars ∧ Locates letters r.args 'x' exprs ∧
        Locates letters r.args 'c' committed) ∧
    ((∀ letters, r.key.toList ≠ KeyForm.result.mark ++ letters) →
      f.isOk = .ok true ∧ f.gaps = .ok ([], [], [])) ∧
    ∀ form letters position, r.key.toList = KeyForm.mark form ++ letters →
      r.IsAside letters position →
      let f' := ({ record := r.marked position } : InstrFacts).decode cx
      f'.isOk = f.isOk ∧ f'.gaps = f.gaps := by
  intro f
  have hd : decodeRecord cx r = .ok d := hd
  have hisOk : f.isOk = .ok d.isOk := isOk_decode hd
  have hgaps : f.gaps = .ok d.gaps := gaps_decode hd
  refine ⟨fun letters hkey => ?_, fun hkey => ?_, fun form letters position hkey haside => ?_⟩
  · obtain ⟨hnone, -⟩ | ⟨form, letters', hletters, -, hfields, -⟩ := decodeRecord_cases hd
    · rw [letters?_eq hkey] at hnone
      cases hnone
    obtain ⟨rfl, rfl⟩ := Prod.mk.inj (Option.some.inj ((letters?_eq hkey).symm.trans hletters))
    obtain ⟨hvars, hexprs, hcommitted⟩ := hfields.locates
    refine ⟨?_, _, _, _, hgaps, hvars, hexprs, hcommitted⟩
    rw [hisOk, ok_inj, ← Bool.not_eq_true, d.isOk_iff]
    simp only [Decoded.gaps, Prod.mk.injEq, not_and_or, hvars.ne_nil_iff, hexprs.ne_nil_iff,
      hcommitted.ne_nil_iff, List.mem_cons, List.not_mem_nil, or_false, exists_eq_or_imp,
      exists_eq_left]
  · have hnone : d.gaps = ([], [], []) := by
      obtain ⟨-, rfl⟩ | ⟨form, letters, hletters, hlength, hfields, hc⟩ := decodeRecord_cases hd
      · rfl
      · cases form with
        | plain => exact hfields.gaps_plain hlength hc
        | result => exact absurd (key_of_letters? hletters) (hkey letters)
    rw [hisOk, hgaps, d.isOk_iff.mpr hnone, hnone]
    exact ⟨rfl, rfl⟩
  · obtain ⟨d', hd', hsame⟩ := decodeRecord_marked (letters?_eq hkey) haside hd
    have hok : d'.isOk = d.isOk := by
      rw [Bool.eq_iff_iff, d'.isOk_iff, d.isOk_iff, hsame]
    exact ⟨(isOk_decode hd').trans (hok ▸ hisOk.symm), (gaps_decode hd').trans (hsame ▸ hgaps.symm)⟩

/-! ### A mixed record -/

def constantFive : Expr := .const (.int 5 .w32)

/-- A context with one expression: the constant five. -/
def fiveContext : DecodeContext :=
  ⟨{ exprs := ⟨"xpr", .ofList [⟨["c", "5"], []⟩]⟩ }, [], [], none⟩

/-- A record whose letters are mixed, with a value under some of them and a mark under others. -/
def mixedRecord : Record :=
  ⟨1, ["ar:lxcxvwc", "rv"], [-2, 1, 1, -2, -2, -2, 1, 1]⟩

/-- The gaps of a mixed record, also with a mark in the place of its returned value. The integer
that looks like a mark is none. -/
theorem gaps_locate_marks_of_mixed :
    let letters := ['l', 'x', 'c', 'x', 'v', 'w', 'c']
    let f := ({ record := mixedRecord } : InstrFacts).decode fiveContext
    let f' := ({ record := mixedRecord.marked 7 } : InstrFacts).decode fiveContext
    f.isOk = .ok false ∧ f.gaps = .ok ([0], [1], []) ∧ Locates letters mixedRecord.args 'x' [1] ∧
      f'.isOk = .ok false ∧ f'.gaps = .ok ([0], [1], []) := by
  have hd : decodeRecord fiveContext mixedRecord = .ok
      { varsResult := [.failed]
        committedVars := [.failed]
        exprsResult := [.present constantFive, .failed]
        committedExprs := [.present constantFive, .present constantFive]
        ints := [-2]
        returnValue := some (.present constantFive) } := by
    rfl
  intro letters f f'
  have hkey : mixedRecord.key.toList = KeyForm.result.mark ++ letters := by decide
  obtain ⟨hresult, -, haside⟩ := gaps_locate_marks fiveContext mixedRecord _ hd
  obtain ⟨hisOk, vars, exprs, committed, hgaps, -, hexprs, -⟩ := hresult letters hkey
  obtain ⟨hisOk', hgaps'⟩ := haside .result letters 7 hkey (.inr (.inr ⟨by decide, by decide⟩))
  have hnotOk : f.isOk = .ok false := hisOk.mpr ⟨'v', by decide, 4, rfl, rfl⟩
  have hplaces : f.gaps = .ok ([0], [1], []) := gaps_decode hd
  obtain ⟨rfl, rfl, rfl⟩ : vars = [0] ∧ exprs = [1] ∧ committed = [] := by
    simpa using hgaps.symm.trans hplaces
  exact ⟨hnotOk, hplaces, hexprs, hisOk'.trans hnotOk, hgaps'.trans hplaces⟩

end FactLift
