import FactLift.Instruction.Decode
import FactLift.Proofs.Except
import Mathlib.Data.List.Forall2

/-! The key table of fact records.

`KeyForm.field?` is the table: which field the argument under a letter goes to. `Reads` says what
the argument has to be, and what it stands for there. A list of arguments is decoded to exactly the
entries that it is read to (`decodeLetters_eq_ok`), which exist exactly if every letter is in the
table and every argument may stand under its letter (`exists_forall₂_reads_iff`), and each field
collects the arguments under its letters, in order (`forall₂_field`). -/

namespace FactLift

open FactLift.Sym

/-! ### What an argument refers to -/

section

variable {α : Type} {get : Nat → Except Error α} {raw : Int64}

/-- The argument is the index of a value. -/
def Refers (get : Nat → Except Error α) (raw : Int64) (a : α) : Prop :=
  0 ≤ raw ∧ get raw.toInt.toNat = .ok a

/-- The argument is the index of a value, or marks it as not available. -/
inductive MayRefer (get : Nat → Except Error α) (raw : Int64) : Fact α → Prop
  | present {a : α} : Refers get raw a → MayRefer get raw (.present a)
  | failed : raw = -2 → MayRefer get raw .failed

theorem not_refers_of_neg (h : raw < 0) (a : α) : ¬ Refers get raw a :=
  fun hr => Int64.not_le.mpr h hr.1

theorem indexed_eq_ok {index position : Nat} {a : α} :
    indexed index position raw get = .ok a ↔ Refers get raw a := by
  unfold indexed
  split
  · rename_i hneg
    exact ⟨nofun, fun h => absurd h (not_refers_of_neg hneg a)⟩
  · rename_i hneg
    exact ⟨fun h => ⟨Int64.not_lt.mp hneg, h⟩, And.right⟩

theorem required_eq_ok {index position : Nat} {letter : Char} {a : α} :
    required index position letter raw get = .ok a ↔ Refers get raw a := by
  unfold required
  split
  · rename_i hmark
    subst hmark
    exact ⟨nofun, fun h => absurd h (not_refers_of_neg (by decide) a)⟩
  · exact indexed_eq_ok

theorem optional_eq_ok {index position : Nat} {f : Fact α} :
    optional index position raw get = .ok f ↔ MayRefer get raw f := by
  unfold optional
  split
  · rename_i hmark
    subst hmark
    constructor
    · intro h
      rw [← Except.ok.inj h]
      exact .failed rfl
    · rintro (h | -)
      · exact absurd h (not_refers_of_neg (by decide) _)
      · rfl
  · rename_i hmark
    split
    · rename_i hneg
      refine ⟨nofun, ?_⟩
      rintro (h | h)
      · exact absurd h (not_refers_of_neg hneg _)
      · exact absurd h hmark
    · rename_i hneg
      constructor
      · intro h
        obtain ⟨a, ha, h⟩ := bind_eq_ok.mp h
        rw [← Except.ok.inj h]
        exact .present ⟨Int64.not_lt.mp hneg, ha⟩
      · rintro (h | h)
        · exact bind_eq_ok.mpr ⟨_, h.2, rfl⟩
        · exact absurd h hmark

end

/-- The argument asks for a dataflow fact, and this is the fact of that kind under its number. -/
structure HasFlow (cx : DecodeContext) (kind : FlowKind) (raw : Int64) (f : Flow) : Prop where
  asked : if kind = .defUseHigh then 0 < raw else 0 ≤ raw
  stored : ∃ store, cx.flows = some store ∧ store.get? raw.toInt.toNat = some f
  kind_eq : f.kind = kind

/-- The dataflow fact that an argument asks for, or none. -/
inductive CarriesFlow (cx : DecodeContext) (kind : FlowKind) (raw : Int64) : Fact Flow → Prop
  | present {f : Flow} : HasFlow cx kind raw f → CarriesFlow cx kind raw (.present f)
  | missing : (∀ f, ¬ HasFlow cx kind raw f) → CarriesFlow cx kind raw .missing

theorem requestsFlow_iff {kind : FlowKind} {raw : Int64} :
    requestsFlow kind raw = true ↔ if kind = .defUseHigh then 0 < raw else 0 ≤ raw := by
  unfold requestsFlow
  split <;> exact decide_eq_true_iff

theorem flowFact_eq_present {cx : DecodeContext} {kind : FlowKind} {raw : Int64} {f : Flow} :
    flowFact cx kind raw = .present f ↔ HasFlow cx kind raw f := by
  unfold flowFact
  constructor
  · intro h
    split at h
    · rename_i hasked
      split at h
      · rename_i f' hf'
        split at h
        · rename_i hkind
          obtain rfl := Fact.present.inj h
          obtain ⟨store, hstore, hget⟩ := Option.bind_eq_some_iff.mp hf'
          exact ⟨requestsFlow_iff.mp hasked, ⟨store, hstore, hget⟩, hkind⟩
        · contradiction
      · contradiction
    · contradiction
  · rintro ⟨hasked, ⟨store, hstore, hget⟩, hkind⟩
    rw [if_pos (requestsFlow_iff.mpr hasked), hstore, Option.bind_some, hget]
    exact if_pos hkind

theorem flowFact_ne_failed {cx : DecodeContext} {kind : FlowKind} {raw : Int64} :
    flowFact cx kind raw ≠ .failed := by
  unfold flowFact
  repeat' split
  all_goals nofun

theorem flowFact_eq {cx : DecodeContext} {kind : FlowKind} {raw : Int64} {fact : Fact Flow} :
    flowFact cx kind raw = fact ↔ CarriesFlow cx kind raw fact := by
  constructor
  · rintro rfl
    cases hfact : flowFact cx kind raw with
    | present f => exact .present (flowFact_eq_present.mp hfact)
    | missing =>
      refine .missing fun f hf => ?_
      rw [flowFact_eq_present.mpr hf] at hfact
      contradiction
    | failed => exact absurd hfact flowFact_ne_failed
  · rintro (hf | hnone)
    · exact flowFact_eq_present.mpr hf
    · cases hfact : flowFact cx kind raw with
      | present f => exact absurd (flowFact_eq_present.mp hfact) (hnone f)
      | missing => rfl
      | failed => exact absurd hfact flowFact_ne_failed

/-! ### The table -/

/-- The fields that the arguments under letters go to. -/
inductive KeyField
  | vars | varsResult | committedVars
  | exprs | exprsResult | committedExprs
  | strings | intervals | ints | types
  | flows (kind : FlowKind)
deriving DecidableEq

/-- The field that the argument under a letter goes to. -/
def KeyForm.field? (form : KeyForm) (letter : Char) : Option KeyField :=
  match letter, form with
  | 'v', .plain => some .vars
  | 'v', .result => some .varsResult
  | 'w', _ => some .committedVars
  | 'x', .plain => some .exprs
  | 'x', .result => some .exprsResult
  | 'c', _ => some .committedExprs
  | 'a', _ => some .exprs
  | 's', _ => some .strings
  | 'i', _ => some .intervals
  | 'l', _ => some .ints
  | 't', _ => some .types
  | 'r', _ => some (.flows .reachingDef)
  | 'd', _ => some (.flows .defUse)
  | 'h', _ => some (.flows .defUseHigh)
  | 'f', _ => some (.flows .flagReachingDef)
  | _, _ => none

/-- What an argument of a field has to be, and the entry that it stands for. -/
def KeyField.Reads (cx : DecodeContext) (raw : Int64) (entry : Entry) : KeyField → Prop
  | .vars => ∃ v, Refers cx.dictionary.decodeVariable raw v ∧ .var v = entry
  | .varsResult => ∃ v, MayRefer cx.dictionary.decodeVariable raw v ∧ .varResult v = entry
  | .committedVars => ∃ v, MayRefer cx.dictionary.decodeVariable raw v ∧ .committedVar v = entry
  | .exprs => ∃ x, Refers cx.dictionary.decodeExpr raw x ∧ .expr x = entry
  | .exprsResult => ∃ x, MayRefer cx.dictionary.decodeExpr raw x ∧ .exprResult x = entry
  | .committedExprs => ∃ x, MayRefer cx.dictionary.decodeExpr raw x ∧ .committedExpr x = entry
  | .strings => ∃ s, Refers cx.string raw s ∧ .string s = entry
  | .intervals => ∃ i, Refers cx.dictionary.decodeInterval raw i ∧ .interval i = entry
  | .ints => .int raw = entry
  | .types => ∃ t, Refers cx.type raw t ∧ .type t = entry
  | .flows kind => ∃ f, CarriesFlow cx kind raw f ∧ .flow kind f = entry

/-- The entry that the argument under a letter stands for. -/
def Reads (cx : DecodeContext) (form : KeyForm) (letter : Char) (raw : Int64) (entry : Entry) :
    Prop :=
  ∃ field, form.field? letter = some field ∧ field.Reads cx raw entry

theorem reads_iff {cx : DecodeContext} {form : KeyForm} {letter : Char} {raw : Int64}
    {entry : Entry} (field : KeyField) (h : form.field? letter = some field) :
    Reads cx form letter raw entry ↔ field.Reads cx raw entry := by
  unfold Reads
  rw [h]
  exact ⟨fun ⟨_, hfield, hreads⟩ => Option.some.inj hfield ▸ hreads, fun hreads => ⟨_, rfl, hreads⟩⟩

theorem return_eq_ok {α : Type} {x : Except Error α} {f : α → Entry} {entry : Entry}
    {P : α → Prop} (hx : ∀ a, x = .ok a ↔ P a) :
    (do return f (← x)) = .ok entry ↔ ∃ a, P a ∧ f a = entry := by
  rw [bind_eq_ok]
  refine exists_congr fun a => ?_
  rw [hx a]
  exact and_congr_right fun _ => ok_inj

/-- The flows have the letters that their kinds have elsewhere. -/
theorem field?_letter (form : KeyForm) (kind : FlowKind) :
    form.field? kind.letter = some (.flows kind) := by
  cases kind <;> rfl

/-- Decoding the argument under a letter follows the table. -/
theorem decodeLetter_eq_ok {cx : DecodeContext} {r : Record} {form : KeyForm} {position : Nat}
    {letter : Char} {raw : Int64} {entry : Entry} :
    decodeLetter cx r form position letter raw = .ok entry ↔ Reads cx form letter raw entry := by
  unfold decodeLetter
  dsimp only
  split
  · rw [reads_iff .varsResult rfl]
    exact return_eq_ok fun _ => optional_eq_ok
  · rw [reads_iff .vars rfl]
    exact return_eq_ok fun _ => required_eq_ok
  · rw [reads_iff .committedVars rfl]
    exact return_eq_ok fun _ => optional_eq_ok
  · rw [reads_iff .exprsResult rfl]
    exact return_eq_ok fun _ => optional_eq_ok
  · rw [reads_iff .exprs rfl]
    exact return_eq_ok fun _ => required_eq_ok
  · rw [reads_iff .exprs rfl]
    exact return_eq_ok fun _ => required_eq_ok
  · rw [reads_iff .committedExprs rfl]
    exact return_eq_ok fun _ => optional_eq_ok
  · rw [reads_iff .strings rfl]
    exact return_eq_ok fun _ => indexed_eq_ok
  · rw [reads_iff .intervals rfl]
    exact return_eq_ok fun _ => indexed_eq_ok
  · rw [reads_iff .ints rfl]
    exact ok_inj
  · rw [reads_iff .types rfl]
    exact return_eq_ok fun _ => indexed_eq_ok
  · split
    · rename_i kind hkind
      have hletter : kind.letter = letter := by
        have h := List.find?_some hkind
        exact beq_iff_eq.mp h
      rw [reads_iff (.flows kind) (hletter ▸ field?_letter form kind), ok_inj]
      simp only [KeyField.Reads, ← flowFact_eq, exists_eq_left']
    · rename_i hkind
      refine ⟨nofun, fun ⟨field, hfield, _⟩ => ?_⟩
      unfold KeyForm.field? at hfield
      split at hfield
      all_goals simp_all [FlowKind.ofLetter?, FlowKind.all, FlowKind.letter]

/-- Decoding the arguments under letters reads each of them. -/
theorem decodeLetters_eq_ok {cx : DecodeContext} {r : Record} {form : KeyForm} {position : Nat}
    {letters : List Char} {args : List Int64} {entries : List Entry} :
    decodeLetters cx r form position letters args = .ok entries ↔
      List.Forall₂ (fun p => Reads cx form p.1 p.2) (letters.zip args) entries := by
  induction letters generalizing position args entries with
  | nil =>
    rw [decodeLetters, ok_inj, List.zip_nil_left, List.forall₂_nil_left_iff, eq_comm]
    nofun
  | cons letter letters ih =>
    cases args with
    | nil =>
      rw [decodeLetters, ok_inj, List.zip_nil_right, List.forall₂_nil_left_iff, eq_comm]
      nofun
    | cons raw args =>
      rw [decodeLetters, bind_eq_ok, List.zip_cons_cons, List.forall₂_cons_left_iff]
      refine exists_congr fun entry => ?_
      rw [decodeLetter_eq_ok, bind_eq_ok, ← exists_and_left]
      refine exists_congr fun rest => and_congr_right fun _ => ?_
      rw [ih, eq_comm]
      exact and_congr_right fun _ => ok_inj

/-! ### Fields -/

/-- The arguments under the letters of a field, in order. -/
def argsUnder (form : KeyForm) (field : KeyField) (letters : List Char) (args : List Int64) :
    List Int64 :=
  ((letters.zip args).filter fun p => form.field? p.1 = some field).map (·.2)

def Entry.field : Entry → KeyField
  | .var _ => .vars
  | .varResult _ => .varsResult
  | .committedVar _ => .committedVars
  | .expr _ => .exprs
  | .exprResult _ => .exprsResult
  | .committedExpr _ => .committedExprs
  | .interval _ => .intervals
  | .string _ => .strings
  | .int _ => .ints
  | .type _ => .types
  | .flow kind _ => .flows kind

theorem KeyField.Reads.field_eq {cx : DecodeContext} {raw : Int64} {entry : Entry}
    {field : KeyField} (h : field.Reads cx raw entry) : entry.field = field := by
  cases field with
  | ints => exact h ▸ rfl
  | _ =>
    obtain ⟨_, -, rfl⟩ := h
    rfl

/-- A field collects what the arguments under its letters are read to, and nothing else. Its values
are put into entries by `make` and taken out of them by `get?`. -/
theorem forall₂_field {β : Type} {cx : DecodeContext} {form : KeyForm} {field : KeyField}
    {get? : Entry → Option β} {rel : Int64 → β → Prop} (make : β → Entry)
    (hget : ∀ entry b, get? entry = some b ↔ make b = entry)
    (hfield : ∀ b, (make b).field = field)
    (hreads : ∀ raw entry, field.Reads cx raw entry → ∃ b, rel raw b ∧ make b = entry)
    {letters : List Char} {args : List Int64} {entries : List Entry}
    (h : List.Forall₂ (fun p => Reads cx form p.1 p.2) (letters.zip args) entries) :
    List.Forall₂ rel (argsUnder form field letters args) (entries.filterMap get?) := by
  unfold argsUnder
  generalize letters.zip args = pairs at h ⊢
  induction h with
  | nil => exact .nil
  | @cons p entry pairs entries hentry _ ih =>
    obtain ⟨field', hfield', hentry⟩ := hentry
    by_cases heq : field' = field
    · subst heq
      obtain ⟨b, hrel, hb⟩ := hreads p.2 entry hentry
      rw [List.filter_cons_of_pos (by simpa using hfield'), List.map_cons,
        List.filterMap_cons_some ((hget entry b).mpr hb)]
      exact .cons hrel ih
    · have hnone : get? entry = none := by
        refine Option.eq_none_iff_forall_ne_some.mpr fun b hb => heq ?_
        rw [← hentry.field_eq, ← (hget entry b).mp hb, hfield b]
      rw [List.filter_cons_of_neg (by simpa [hfield'] using heq), List.filterMap_cons_none hnone]
      exact ih

/-! ### Which arguments are admitted -/

def keyLetters : List Char :=
  ['v', 'w', 'x', 'c', 'a', 's', 'i', 'l', 't', 'r', 'd', 'h', 'f']

/-- Whether an argument may stand under a letter. Integers and dataflow facts may be anything. -/
def Admissible (cx : DecodeContext) (form : KeyForm) (letter : Char) (raw : Int64) : Prop :=
  match letter with
  | 'v' => (∃ v, Refers cx.dictionary.decodeVariable raw v) ∨ form = .result ∧ raw = -2
  | 'x' => (∃ x, Refers cx.dictionary.decodeExpr raw x) ∨ form = .result ∧ raw = -2
  | 'a' => ∃ x, Refers cx.dictionary.decodeExpr raw x
  | 'w' => (∃ v, Refers cx.dictionary.decodeVariable raw v) ∨ raw = -2
  | 'c' => (∃ x, Refers cx.dictionary.decodeExpr raw x) ∨ raw = -2
  | 's' => ∃ s, Refers cx.string raw s
  | 'i' => ∃ i, Refers cx.dictionary.decodeInterval raw i
  | 't' => ∃ t, Refers cx.type raw t
  | _ => True

theorem exists_mayRefer {α : Type} {get : Nat → Except Error α} {raw : Int64} :
    (∃ f, MayRefer get raw f) ↔ (∃ a, Refers get raw a) ∨ raw = -2 := by
  constructor
  · rintro ⟨_, h | h⟩
    · exact .inl ⟨_, h⟩
    · exact .inr h
  · rintro (⟨a, h⟩ | h)
    · exact ⟨_, .present h⟩
    · exact ⟨_, .failed h⟩

theorem exists_carriesFlow (cx : DecodeContext) (kind : FlowKind) (raw : Int64) :
    ∃ f, CarriesFlow cx kind raw f :=
  ⟨flowFact cx kind raw, flowFact_eq.mp rfl⟩

theorem mem_keyLetters {form : KeyForm} {letter : Char} {field : KeyField}
    (h : form.field? letter = some field) : letter ∈ keyLetters := by
  unfold KeyForm.field? at h
  split at h <;> simp_all [keyLetters]

/-- An argument is read exactly if its letter is in the table and it is admitted there. -/
theorem exists_reads_iff {cx : DecodeContext} {form : KeyForm} {letter : Char} {raw : Int64} :
    (∃ entry, Reads cx form letter raw entry) ↔
      letter ∈ keyLetters ∧ Admissible cx form letter raw := by
  by_cases hletter : letter ∈ keyLetters
  · have hflow (kind : FlowKind) : (∃ entry, (KeyField.flows kind).Reads cx raw entry) ↔ True := by
      obtain ⟨f, hf⟩ := exists_carriesFlow cx kind raw
      exact iff_true_intro ⟨.flow kind f, f, hf, rfl⟩
    have hfield (field : KeyField) (h : form.field? letter = some field) :
        (∃ entry, Reads cx form letter raw entry) ↔ ∃ entry, field.Reads cx raw entry :=
      exists_congr fun _ => reads_iff field h
    refine Iff.trans ?_ (and_iff_right hletter).symm
    simp only [keyLetters, List.mem_cons, List.not_mem_nil, or_false] at hletter
    rcases hletter with rfl | rfl | rfl | rfl | rfl | rfl | rfl | rfl | rfl | rfl | rfl | rfl | rfl
    · cases form with
      | plain => simp [hfield .vars rfl, KeyField.Reads, Admissible]
      | result => simp [hfield .varsResult rfl, KeyField.Reads, Admissible, exists_mayRefer]
    · simp [hfield .committedVars rfl, KeyField.Reads, Admissible, exists_mayRefer]
    · cases form with
      | plain => simp [hfield .exprs rfl, KeyField.Reads, Admissible]
      | result => simp [hfield .exprsResult rfl, KeyField.Reads, Admissible, exists_mayRefer]
    · simp [hfield .committedExprs rfl, KeyField.Reads, Admissible, exists_mayRefer]
    · simp [hfield .exprs rfl, KeyField.Reads, Admissible]
    · simp [hfield .strings rfl, KeyField.Reads, Admissible]
    · simp [hfield .intervals rfl, KeyField.Reads, Admissible]
    · simp [hfield .ints rfl, KeyField.Reads, Admissible]
    · simp [hfield .types rfl, KeyField.Reads, Admissible]
    · exact (hfield _ rfl).trans (hflow .reachingDef)
    · exact (hfield _ rfl).trans (hflow .defUse)
    · exact (hfield _ rfl).trans (hflow .defUseHigh)
    · exact (hfield _ rfl).trans (hflow .flagReachingDef)
  · refine iff_of_false ?_ fun h => hletter h.1
    rintro ⟨entry, field, hfield, -⟩
    exact hletter (mem_keyLetters hfield)

/-- The arguments under letters are read exactly if all letters are in the table and all arguments
are admitted under them. -/
theorem exists_forall₂_reads_iff {cx : DecodeContext} {form : KeyForm}
    {pairs : List (Char × Int64)} :
    (∃ entries, List.Forall₂ (fun p => Reads cx form p.1 p.2) pairs entries) ↔
      ∀ p ∈ pairs, p.1 ∈ keyLetters ∧ Admissible cx form p.1 p.2 := by
  induction pairs with
  | nil => exact ⟨fun _ => nofun, fun _ => ⟨[], .nil⟩⟩
  | cons p pairs ih =>
    rw [List.forall_mem_cons, ← ih, ← exists_reads_iff]
    constructor
    · rintro ⟨_, h⟩
      cases h with
      | cons hentry hentries => exact ⟨⟨_, hentry⟩, ⟨_, hentries⟩⟩
    · rintro ⟨⟨entry, hentry⟩, ⟨entries, hentries⟩⟩
      exact ⟨entry :: entries, .cons hentry hentries⟩

end FactLift
