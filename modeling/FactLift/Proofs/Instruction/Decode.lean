import FactLift.Instruction.Facts
import FactLift.Proofs.Instruction.KeyTable

/-! Decoding follows the key table.

After the arguments under letters come those that the tags ask for; `ReadsTrailing` says what they
are read to. `Accepts` collects what a record has to be like, and `Collects` what its fields then
are: `decode_follows_keyTable` says that decoding accepts exactly these records and gives exactly
these fields. -/

namespace FactLift

open FactLift.Sym

/-! ### The arguments after the letters -/

/-- A field is there exactly if a tag asks for it, and is then what it has to be. -/
def Tagged {α : Type} (tag : Bool) (P : α → Prop) (field : Option α) : Prop :=
  if tag then ∃ a, field = some a ∧ P a else field = none

/-- The position of the returned value, if the letters end at one. -/
def Record.returnPosition (r : Record) (position : Nat) : Nat :=
  position + (if r.hasBaseUpdate then 2 else 0)

/-- The position of the name of the function called, if the letters end at one. -/
def Record.callPosition (r : Record) (position : Nat) : Nat :=
  r.returnPosition position + (if r.hasReturnValue then 1 else 0)

/-- The argument at a position that has one. -/
def Record.argAt (r : Record) (position : Nat) : Int64 :=
  r.args.getD position 0

/-- What the two arguments of a base update are read to. -/
def ReadsBaseUpdate (cx : DecodeContext) (r : Record) (position : Nat) (u : BaseUpdate) : Prop :=
  MayRefer cx.dictionary.decodeVariable (r.argAt position) u.var ∧
    MayRefer cx.dictionary.decodeExpr (r.argAt (position + 1)) u.value

/-- What the arguments from a position on are read to. -/
structure ReadsTrailing (cx : DecodeContext) (r : Record) (position : Nat) (t : Trailing) :
    Prop where
  baseUpdate : Tagged r.hasBaseUpdate (ReadsBaseUpdate cx r position) t.baseUpdate
  returnValue : Tagged r.hasReturnValue
    (MayRefer cx.dictionary.decodeExpr (r.argAt (r.returnPosition position))) t.returnValue
  callTarget : Tagged r.hasCallTarget
    (Refers cx.string (r.argAt (r.callPosition position))) t.callTarget

section

variable {cx : DecodeContext} {r : Record} {position : Nat}

theorem tagged_eq_ok {α : Type} {tag : Bool} {P : α → Prop} {x : Except Error α}
    {o : Option α} (hx : ∀ a, x = .ok a ↔ P a) :
    (if tag then do return some (← x) else .ok none) = .ok o ↔ Tagged tag P o := by
  unfold Tagged
  cases tag with
  | false => exact ok_inj.trans eq_comm
  | true =>
    simp only [if_true, bind_eq_ok]
    refine exists_congr fun a => ?_
    rw [hx a, and_comm, eq_comm]
    exact and_congr_left fun _ => ok_inj

theorem decodeBaseUpdate_eq_ok {o : Option BaseUpdate} :
    decodeBaseUpdate cx r position = .ok o ↔
      Tagged r.hasBaseUpdate (ReadsBaseUpdate cx r position) o := by
  unfold decodeBaseUpdate Tagged
  split
  · simp only [bind_eq_ok, optional_eq_ok]
    constructor
    · rintro ⟨var, hvar, value, hvalue, h⟩
      exact ⟨⟨var, value⟩, (Except.ok.inj h).symm, hvar, hvalue⟩
    · rintro ⟨⟨var, value⟩, rfl, hvar, hvalue⟩
      exact ⟨var, hvar, value, hvalue, rfl⟩
  · exact ok_inj.trans eq_comm

/-- Decoding the arguments after the letters reads each of them. -/
theorem decodeTrailing_eq_ok {t : Trailing} :
    decodeTrailing cx r position = .ok t ↔ ReadsTrailing cx r position t := by
  have hreturn {o : Option (Fact Expr)} :
      decodeReturnValue cx r (r.returnPosition position) = .ok o ↔ Tagged r.hasReturnValue
        (MayRefer cx.dictionary.decodeExpr (r.argAt (r.returnPosition position))) o :=
    tagged_eq_ok fun _ => optional_eq_ok
  have hcall {o : Option String} : decodeCallTarget cx r (r.callPosition position) = .ok o ↔
      Tagged r.hasCallTarget (Refers cx.string (r.argAt (r.callPosition position))) o :=
    tagged_eq_ok fun _ => indexed_eq_ok
  unfold decodeTrailing
  rw [bind_eq_ok]
  constructor
  · rintro ⟨baseUpdate, hbase, h⟩
    obtain ⟨returnValue, hvalue, h⟩ := bind_eq_ok.mp h
    obtain ⟨callTarget, htarget, h⟩ := bind_eq_ok.mp h
    obtain rfl := Except.ok.inj h
    exact ⟨decodeBaseUpdate_eq_ok.mp hbase, hreturn.mp hvalue, hcall.mp htarget⟩
  · rintro ⟨hbase, hvalue, htarget⟩
    refine ⟨t.baseUpdate, decodeBaseUpdate_eq_ok.mpr hbase, bind_eq_ok.mpr ?_⟩
    refine ⟨t.returnValue, hreturn.mpr hvalue, bind_eq_ok.mpr ?_⟩
    exact ⟨t.callTarget, hcall.mpr htarget, rfl⟩

/-- Whether the arguments from a position on may stand there. -/
structure AdmitsTrailing (cx : DecodeContext) (r : Record) (position : Nat) : Prop where
  baseUpdate : r.hasBaseUpdate = true →
    ((∃ v, Refers cx.dictionary.decodeVariable (r.argAt position) v) ∨ r.argAt position = -2) ∧
      ((∃ x, Refers cx.dictionary.decodeExpr (r.argAt (position + 1)) x) ∨
        r.argAt (position + 1) = -2)
  returnValue : r.hasReturnValue = true →
    (∃ x, Refers cx.dictionary.decodeExpr (r.argAt (r.returnPosition position)) x) ∨
      r.argAt (r.returnPosition position) = -2
  callTarget : r.hasCallTarget = true →
    ∃ s, Refers cx.string (r.argAt (r.callPosition position)) s

theorem exists_tagged {α : Type} {tag : Bool} {P : α → Prop} :
    (∃ o, Tagged tag P o) ↔ (tag = true → ∃ a, P a) := by
  cases tag with
  | false => simp [Tagged]
  | true => simp [Tagged]

theorem exists_readsTrailing_iff :
    (∃ t, ReadsTrailing cx r position t) ↔ AdmitsTrailing cx r position := by
  constructor
  · rintro ⟨t, hbase, hvalue, htarget⟩
    refine ⟨fun htag => ?_, fun htag => ?_, exists_tagged.mp ⟨_, htarget⟩⟩
    · obtain ⟨u, hvar, hvalue⟩ := exists_tagged.mp ⟨_, hbase⟩ htag
      exact ⟨exists_mayRefer.mp ⟨_, hvar⟩, exists_mayRefer.mp ⟨_, hvalue⟩⟩
    · exact exists_mayRefer.mp (exists_tagged.mp ⟨_, hvalue⟩ htag)
  · rintro ⟨hbase, hvalue, htarget⟩
    have hupdate (htag : r.hasBaseUpdate = true) : ∃ u, ReadsBaseUpdate cx r position u := by
      obtain ⟨var, hvar⟩ := exists_mayRefer.mpr (hbase htag).1
      obtain ⟨value, hvalue⟩ := exists_mayRefer.mpr (hbase htag).2
      exact ⟨⟨var, value⟩, hvar, hvalue⟩
    obtain ⟨baseUpdate, hbase⟩ := exists_tagged.mpr hupdate
    obtain ⟨returnValue, hvalue⟩ := exists_tagged.mpr fun htag => exists_mayRefer.mpr (hvalue htag)
    obtain ⟨callTarget, htarget⟩ := exists_tagged.mpr htarget
    exact ⟨⟨baseUpdate, returnValue, callTarget⟩, hbase, hvalue, htarget⟩

end

/-! ### Counting letters -/

theorem length_argsUnder (form : KeyForm) (field : KeyField) {letters : List Char}
    {args : List Int64} (h : letters.length ≤ args.length) :
    (argsUnder form field letters args).length =
      letters.countP fun letter => form.field? letter = some field := by
  rw [argsUnder, List.length_map, ← List.countP_eq_length_filter]
  calc (letters.zip args).countP (fun p => form.field? p.1 = some field)
      = ((letters.zip args).map Prod.fst).countP
          (fun letter => form.field? letter = some field) := by
        rw [List.countP_map]
        rfl
    _ = letters.countP fun letter => form.field? letter = some field := by
        rw [List.map_fst_zip h]

/-- The letters of the fields that are counted. -/
theorem field?_counted (form : KeyForm) (letter : Char) :
    (form.field? letter = some .committedVars ↔ letter = 'w') ∧
      (form.field? letter = some .committedExprs ↔ letter = 'c') ∧
      (form.field? letter = some .varsResult ↔ form = .result ∧ letter = 'v') ∧
      (form.field? letter = some .exprsResult ↔ form = .result ∧ letter = 'x') := by
  unfold KeyForm.field?
  split <;> simp_all
  -- What is left is a letter that is none of the table, in either form.
  constructor
  · rintro rfl rfl
    contradiction
  · rintro rfl rfl
    contradiction

/-- How many results of a letter there are: none in the plain form. -/
def KeyForm.resultCount (form : KeyForm) (letter : Char) (letters : List Char) : Nat :=
  match form with
  | .plain => 0
  | .result => letters.count letter

theorem countP_committed {form : KeyForm} {letter : Char} {field : KeyField}
    (h : ∀ c, form.field? c = some field ↔ c = letter) (letters : List Char) :
    (letters.countP fun c => form.field? c = some field) = letters.count letter :=
  List.countP_congr fun c _ => by simp [h c]

theorem countP_results {form : KeyForm} {letter : Char} {field : KeyField}
    (h : ∀ c, form.field? c = some field ↔ form = .result ∧ c = letter) (letters : List Char) :
    (letters.countP fun c => form.field? c = some field) = form.resultCount letter letters := by
  cases form with
  | plain => exact List.countP_eq_zero.mpr fun c _ => by simp [h c]
  | result => exact List.countP_congr fun c _ => by simp [h c]

/-! ### Records -/

/-- The characters that a key of the form starts with. -/
def KeyForm.mark : KeyForm → List Char
  | .plain => ['a', ':']
  | .result => ['a', 'r', ':']

theorem letters?_eq {r : Record} {form : KeyForm} {letters : List Char}
    (h : r.key.toList = form.mark ++ letters) : r.letters? = some (form, letters) := by
  unfold Record.letters?
  rw [h]
  cases form <;> rfl

theorem key_of_letters? {r : Record} {form : KeyForm} {letters : List Char}
    (h : r.letters? = some (form, letters)) : r.key.toList = form.mark ++ letters := by
  unfold Record.letters? at h
  split at h
  next rest hkey =>
    obtain ⟨rfl, rfl⟩ := Prod.mk.inj (Option.some.inj h)
    exact hkey
  next rest hkey =>
    obtain ⟨rfl, rfl⟩ := Prod.mk.inj (Option.some.inj h)
    exact hkey
  next => cases h

/-- When a record with these letters is decoded. -/
structure Accepts (cx : DecodeContext) (r : Record) (form : KeyForm) (letters : List Char) :
    Prop where
  count : r.args.length = letters.length + (if r.hasBaseUpdate then 2 else 0) +
    (if r.hasReturnValue then 1 else 0) + (if r.hasCallTarget then 1 else 0)
  known : ∀ letter ∈ letters, letter ∈ keyLetters
  admissible : ∀ p ∈ letters.zip r.args, Admissible cx form p.1 p.2
  trailing : AdmitsTrailing cx r letters.length
  committedVars : letters.count 'w' = 0 ∨ letters.count 'w' = form.resultCount 'v' letters
  committedExprs : letters.count 'c' = 0 ∨ letters.count 'c' = form.resultCount 'x' letters

/-- Every field is, in order, what the arguments under its letters stand for. -/
structure Collects (cx : DecodeContext) (form : KeyForm) (letters : List Char) (args : List Int64)
    (d : Decoded) : Prop where
  vars : List.Forall₂ (Refers cx.dictionary.decodeVariable)
    (argsUnder form .vars letters args) d.vars
  varsResult : List.Forall₂ (MayRefer cx.dictionary.decodeVariable)
    (argsUnder form .varsResult letters args) d.varsResult
  committedVars : List.Forall₂ (MayRefer cx.dictionary.decodeVariable)
    (argsUnder form .committedVars letters args) d.committedVars
  exprs : List.Forall₂ (Refers cx.dictionary.decodeExpr)
    (argsUnder form .exprs letters args) d.exprs
  exprsResult : List.Forall₂ (MayRefer cx.dictionary.decodeExpr)
    (argsUnder form .exprsResult letters args) d.exprsResult
  committedExprs : List.Forall₂ (MayRefer cx.dictionary.decodeExpr)
    (argsUnder form .committedExprs letters args) d.committedExprs
  strings : List.Forall₂ (Refers cx.string) (argsUnder form .strings letters args) d.strings
  intervals : List.Forall₂ (Refers cx.dictionary.decodeInterval)
    (argsUnder form .intervals letters args) d.intervals
  ints : List.Forall₂ Eq (argsUnder form .ints letters args) d.ints
  types : List.Forall₂ (Refers cx.type) (argsUnder form .types letters args) d.types
  reachingDefs : List.Forall₂ (CarriesFlow cx .reachingDef)
    (argsUnder form (.flows .reachingDef) letters args) d.reachingDefs
  defUses : List.Forall₂ (CarriesFlow cx .defUse)
    (argsUnder form (.flows .defUse) letters args) d.defUses
  defUsesHigh : List.Forall₂ (CarriesFlow cx .defUseHigh)
    (argsUnder form (.flows .defUseHigh) letters args) d.defUsesHigh
  flagReachingDefs : List.Forall₂ (CarriesFlow cx .flagReachingDef)
    (argsUnder form (.flows .flagReachingDef) letters args) d.flagReachingDefs

/-- Sorting the entries into fields collects the arguments. -/
theorem collects_ofEntries {cx : DecodeContext} {form : KeyForm} {letters : List Char}
    {args : List Int64} {entries : List Entry}
    (h : List.Forall₂ (fun p => Reads cx form p.1 p.2) (letters.zip args) entries) :
    Collects cx form letters args (.ofEntries entries) := by
  have hflows (kind : FlowKind) : List.Forall₂ (CarriesFlow cx kind)
      (argsUnder form (.flows kind) letters args) (flowsOf kind entries) := by
    refine forall₂_field (.flow kind) ?_ (fun _ => rfl) (fun _ _ hreads => hreads) h
    intro entry f
    cases entry with
    | flow k f' =>
      by_cases hk : k = kind
      · simp [hk, eq_comm]
      · simp [hk, Ne.symm hk]
    | _ => simp
  refine
    { vars := forall₂_field .var ?_ (fun _ => rfl) (fun _ _ hreads => hreads) h
      varsResult := forall₂_field .varResult ?_ (fun _ => rfl) (fun _ _ hreads => hreads) h
      committedVars := forall₂_field .committedVar ?_ (fun _ => rfl) (fun _ _ hreads => hreads) h
      exprs := forall₂_field .expr ?_ (fun _ => rfl) (fun _ _ hreads => hreads) h
      exprsResult := forall₂_field .exprResult ?_ (fun _ => rfl) (fun _ _ hreads => hreads) h
      committedExprs := forall₂_field .committedExpr ?_ (fun _ => rfl) (fun _ _ hreads => hreads) h
      strings := forall₂_field .string ?_ (fun _ => rfl) (fun _ _ hreads => hreads) h
      intervals := forall₂_field .interval ?_ (fun _ => rfl) (fun _ _ hreads => hreads) h
      ints := forall₂_field .int ?_ (fun _ => rfl) (fun raw _ hreads => ⟨raw, rfl, hreads⟩) h
      types := forall₂_field .type ?_ (fun _ => rfl) (fun _ _ hreads => hreads) h
      reachingDefs := hflows .reachingDef
      defUses := hflows .defUse
      defUsesHigh := hflows .defUseHigh
      flagReachingDefs := hflows .flagReachingDef }
  -- A field takes out of the entries exactly what was put into them under its own constructor.
  all_goals
    intro entry _
    cases entry <;> simp [eq_comm]

/-- How many committed values and results there are. -/
theorem Collects.lengths {cx : DecodeContext} {form : KeyForm} {letters : List Char}
    {args : List Int64} {d : Decoded} (h : Collects cx form letters args d)
    (hlength : letters.length ≤ args.length) :
    d.committedVars.length = letters.count 'w' ∧
      d.varsResult.length = form.resultCount 'v' letters ∧
      d.committedExprs.length = letters.count 'c' ∧
      d.exprsResult.length = form.resultCount 'x' letters := by
  refine ⟨?_, ?_, ?_, ?_⟩
  · rw [← h.committedVars.length_eq, length_argsUnder form _ hlength]
    exact countP_committed (fun c => (field?_counted form c).1) letters
  · rw [← h.varsResult.length_eq, length_argsUnder form _ hlength]
    exact countP_results (fun c => (field?_counted form c).2.2.1) letters
  · rw [← h.committedExprs.length_eq, length_argsUnder form _ hlength]
    exact countP_committed (fun c => (field?_counted form c).2.1) letters
  · rw [← h.exprsResult.length_eq, length_argsUnder form _ hlength]
    exact countP_results (fun c => (field?_counted form c).2.2.2) letters

theorem checkCommitted_eq_ok {index : Nat} {family : ResultFamily} {committed results : Nat} :
    checkCommitted index family committed results = .ok () ↔
      (committed = 0 ∨ committed = results) := by
  unfold checkCommitted
  split
  · rename_i h
    exact iff_of_true rfl h
  · rename_i h
    exact iff_of_false nofun h

theorem checked_eq_ok {index committed results : Nat} {family : ResultFamily} {α : Type}
    {x : Except Error α} {a : α} :
    (do checkCommitted index family committed results; x) = .ok a ↔
      (committed = 0 ∨ committed = results) ∧ x = .ok a := by
  rw [bind_eq_ok, ← checkCommitted_eq_ok]
  exact ⟨fun ⟨_, hcheck, hx⟩ => ⟨hcheck, hx⟩, fun ⟨hcheck, hx⟩ => ⟨(), hcheck, hx⟩⟩

/-- The decoded record: the entries sorted into fields, and what comes after the letters. -/
def Trailing.put (t : Trailing) (d : Decoded) : Decoded :=
  { d with
    baseUpdate := t.baseUpdate
    returnValue := t.returnValue
    callTarget := t.callTarget }

/-- Decoding a record with letters takes these steps, and each must succeed. -/
theorem decodeRecord_eq_ok {cx : DecodeContext} {r : Record} {form : KeyForm}
    {letters : List Char} (hletters : r.letters? = some (form, letters)) {d : Decoded} :
    decodeRecord cx r = .ok d ↔ r.args.length = letters.length + r.trailingCount ∧
      ∃ entries t, List.Forall₂ (fun p => Reads cx form p.1 p.2) (letters.zip r.args) entries ∧
        ReadsTrailing cx r letters.length t ∧
        (letters.count 'w' = 0 ∨ letters.count 'w' = form.resultCount 'v' letters) ∧
        (letters.count 'c' = 0 ∨ letters.count 'c' = form.resultCount 'x' letters) ∧
        t.put (.ofEntries entries) = d := by
  unfold decodeRecord
  rw [hletters]
  dsimp only
  by_cases hcount : r.args.length = letters.length + r.trailingCount
  · rw [if_neg (not_not_intro hcount), and_iff_right hcount]
    have hlength : letters.length ≤ r.args.length := by omega
    rw [bind_eq_ok]
    refine exists_congr fun entries => ?_
    rw [decodeLetters_eq_ok, bind_eq_ok, ← exists_and_left]
    refine exists_congr fun t => and_congr_right fun hentries => ?_
    rw [decodeTrailing_eq_ok]
    refine and_congr_right fun _ => ?_
    obtain ⟨hw, hv, hc, hx⟩ := (collects_ofEntries hentries).lengths hlength
    rw [hw, hv, hc, hx, checked_eq_ok, checked_eq_ok]
    exact and_congr_right fun _ => and_congr_right fun _ => ok_inj
  · rw [if_pos hcount]
    exact iff_of_false nofun fun h => hcount h.1

/-- A record that is decoded has a key without letters and no fields, or its fields are what the
arguments under its letters stand for. -/
theorem decodeRecord_cases {cx : DecodeContext} {r : Record} {d : Decoded}
    (h : decodeRecord cx r = .ok d) :
    (r.letters? = none ∧ d = {}) ∨ ∃ form letters, r.letters? = some (form, letters) ∧
      letters.length ≤ r.args.length ∧ Collects cx form letters r.args d ∧
      (letters.count 'c' = 0 ∨ letters.count 'c' = form.resultCount 'x' letters) := by
  cases hletters : r.letters? with
  | none =>
    rw [decodeRecord, hletters] at h
    dsimp only at h
    split at h
    · exact .inl ⟨rfl, (Except.ok.inj h).symm⟩
    · cases h
  | some key =>
    obtain ⟨form, letters⟩ := key
    obtain ⟨hcount, entries, t, hentries, -, -, hc, rfl⟩ := (decodeRecord_eq_ok hletters).mp h
    exact .inr ⟨form, letters, rfl, by omega, { collects_ofEntries hentries with }, hc⟩

theorem forall_mem_zip {letters : List Char} {args : List Int64}
    (hlength : letters.length ≤ args.length) {P : Char → Prop} :
    (∀ p ∈ letters.zip args, P p.1) ↔ ∀ letter ∈ letters, P letter := by
  nth_rewrite 2 [← List.map_fst_zip hlength]
  rw [List.forall_mem_map]

/-- **Decoding follows the key table.** A record with a key of either form is decoded exactly if it
has as many arguments as its letters and tags ask for, every letter is in the table, every argument
may stand where it does, and committed values are none or as many as the results. Every field is
then, in order, what the arguments under its letters stand for. -/
theorem decode_follows_keyTable (cx : DecodeContext) (r : Record) (form : KeyForm)
    (letters : List Char) (hkey : r.key.toList = form.mark ++ letters) :
    let outcome := (({ record := r } : InstrFacts).decode cx).decoded
    ((∃ d, outcome = .ok d) ↔ Accepts cx r form letters) ∧
      ∀ d, outcome = .ok d → Collects cx form letters r.args d ∧
        ReadsTrailing cx r letters.length ⟨d.baseUpdate, d.returnValue, d.callTarget⟩ := by
  intro outcome
  have houtcome {d : Decoded} : outcome = .ok d ↔ _ := decodeRecord_eq_ok (letters?_eq hkey)
  refine ⟨⟨?_, ?_⟩, ?_⟩
  · rintro ⟨d, hd⟩
    obtain ⟨hcount, entries, t, hentries, ht, hw, hc, -⟩ := houtcome.mp hd
    have hadmitted := exists_forall₂_reads_iff.mp ⟨entries, hentries⟩
    refine ⟨?_, ?_, fun p hp => (hadmitted p hp).2, exists_readsTrailing_iff.mp ⟨t, ht⟩, hw, hc⟩
    · rw [hcount, Record.trailingCount]
      omega
    · exact (forall_mem_zip (by omega)).mp fun p hp => (hadmitted p hp).1
  · rintro ⟨hcount, hknown, hadmissible, htrailing, hw, hc⟩
    have hcount : r.args.length = letters.length + r.trailingCount := by
      rw [hcount, Record.trailingCount]
      omega
    have hlength : letters.length ≤ r.args.length := by omega
    have hletters := (forall_mem_zip hlength).mpr hknown
    obtain ⟨entries, hentries⟩ := exists_forall₂_reads_iff.mpr fun p hp =>
      ⟨hletters p hp, hadmissible p hp⟩
    obtain ⟨t, ht⟩ := exists_readsTrailing_iff.mpr htrailing
    exact ⟨_, houtcome.mpr ⟨hcount, entries, t, hentries, ht, hw, hc, rfl⟩⟩
  · intro d hd
    obtain ⟨-, entries, t, hentries, ht, -, -, rfl⟩ := houtcome.mp hd
    exact ⟨{ collects_ofEntries hentries with }, ht⟩

/-- A call whose result and its committed form are marked as not available is decoded: the string
under its last letter and the name after the letters are found. -/
theorem decode_follows_keyTable_on_call :
    let cx : DecodeContext := ⟨{}, ["memcpy"], [], none⟩
    let r : Record := ⟨1, ["ar:vws", "call"], [-2, -2, 1, 1]⟩
    let letters := ['v', 'w', 's']
    let outcome := (({ record := r } : InstrFacts).decode cx).decoded
    r.key.toList = KeyForm.result.mark ++ letters ∧ Accepts cx r .result letters ∧
      ∃ d, outcome = .ok d ∧ Collects cx .result letters r.args d ∧
        ReadsTrailing cx r letters.length ⟨d.baseUpdate, d.returnValue, d.callTarget⟩ := by
  intro cx r letters outcome
  have hkey : r.key.toList = KeyForm.result.mark ++ letters := by decide
  have hname : Refers cx.string 1 "memcpy" := ⟨by decide, rfl⟩
  have hadmissible : ∀ p ∈ letters.zip r.args, Admissible cx .result p.1 p.2 := by
    have hzip : letters.zip r.args = [('v', -2), ('w', -2), ('s', 1)] := rfl
    simp only [hzip, List.forall_mem_cons]
    exact ⟨.inr ⟨rfl, rfl⟩, .inr rfl, ⟨_, hname⟩, nofun⟩
  have haccepts : Accepts cx r .result letters :=
    { count := by decide
      known := by simp [letters, keyLetters]
      admissible := hadmissible
      trailing :=
        ⟨fun h => absurd h (by decide), fun h => absurd h (by decide), fun _ => ⟨_, hname⟩⟩
      committedVars := .inr (by decide)
      committedExprs := .inl (by decide) }
  obtain ⟨hdecoded, hfields⟩ := decode_follows_keyTable cx r .result letters hkey
  obtain ⟨d, hd⟩ := hdecoded.mpr haccepts
  exact ⟨hkey, haccepts, d, hd, hfields d hd⟩

end FactLift
