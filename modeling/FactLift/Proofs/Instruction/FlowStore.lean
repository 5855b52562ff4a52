import FactLift.Proofs.Instruction.Decode

/-! Dataflow facts make no difference to anything else in a record.

Decoding without any dataflow facts gives what decoding with them gives, with every flow taken out
(`decodeRecord_storeless`): the same error, or the same fields up to the flows. Two decodings that
differ in their dataflow facts alone are compared through the one without any. -/

namespace FactLift

open FactLift.Sym

/-! ### Without dataflow facts -/

/-- The context without dataflow facts. -/
def DecodeContext.storeless (cx : DecodeContext) : DecodeContext :=
  { cx with flows := none }

def Entry.emptied : Entry → Entry
  | .flow kind _ => .flow kind .missing
  | entry => entry

namespace Decoded

def flows (d : Decoded) : FlowKind → List (Fact Flow)
  | .reachingDef => d.reachingDefs
  | .flagReachingDef => d.flagReachingDefs
  | .defUse => d.defUses
  | .defUseHigh => d.defUsesHigh

/-- The record with other flows, and everything else as it is. -/
def withFlows (d : Decoded) (flows : FlowKind → List (Fact Flow)) : Decoded :=
  { d with
    reachingDefs := flows .reachingDef
    flagReachingDefs := flows .flagReachingDef
    defUses := flows .defUse
    defUsesHigh := flows .defUseHigh }

/-- The record with all its flows missing. -/
def emptied (d : Decoded) : Decoded :=
  d.withFlows fun kind => (d.flows kind).map fun _ => .missing

/-- Every flow is of the kind asked for and stands in the store. -/
def TakesFlowsFrom (d : Decoded) (store : Option FlowStore) : Prop :=
  ∀ kind f, .present f ∈ d.flows kind →
    f.kind = kind ∧ ∃ s n, store = some s ∧ s.get? n = some f

theorem withFlows_flows (d : Decoded) : d.withFlows d.flows = d := rfl

theorem withFlows_withFlows (d : Decoded) (flows flows' : FlowKind → List (Fact Flow)) :
    (d.withFlows flows).withFlows flows' = d.withFlows flows' := rfl

theorem flows_withFlows (d : Decoded) (flows : FlowKind → List (Fact Flow)) :
    (d.withFlows flows).flows = flows := by
  funext kind
  cases kind <;> rfl

theorem flows_emptied (d : Decoded) (kind : FlowKind) :
    d.emptied.flows kind = (d.flows kind).map fun _ => .missing := by
  rw [emptied, flows_withFlows]

end Decoded

section

variable {cx : DecodeContext} {r : Record} {form : KeyForm} {kind : FlowKind}

theorem flowFact_storeless (raw : Int64) : flowFact cx.storeless kind raw = .missing := by
  unfold flowFact
  split <;> rfl

theorem emptied_return {α : Type} (f : α → Entry) (x : Except Error α)
    (h : ∀ a, (f a).emptied = f a) :
    Entry.emptied <$> (do return f (← x)) = (do return f (← x)) := by
  rw [map_bind]
  exact bind_congr fun a => congrArg Except.ok (h a)

theorem decodeLetter_storeless (position : Nat) (letter : Char) (raw : Int64) :
    decodeLetter cx.storeless r form position letter raw =
      Entry.emptied <$> decodeLetter cx r form position letter raw := by
  unfold decodeLetter
  dsimp only
  split
  -- Integers are taken as they are.
  case h_10 => rfl
  -- Only here is the store asked: a letter that is in none of the other rows.
  case h_12 =>
    split
    · rw [flowFact_storeless]
      rfl
    · rfl
  all_goals exact (emptied_return _ _ fun _ => rfl).symm

theorem decodeLetters_storeless (position : Nat) (letters : List Char) (args : List Int64) :
    decodeLetters cx.storeless r form position letters args =
      List.map Entry.emptied <$> decodeLetters cx r form position letters args := by
  induction letters generalizing position args with
  | nil => rfl
  | cons letter letters ih =>
    cases args with
    | nil => rfl
    | cons raw args =>
      rw [decodeLetters, decodeLetters, decodeLetter_storeless, bind_map_left, map_bind]
      refine bind_congr fun entry => ?_
      rw [ih, bind_map_left, map_bind]
      exact bind_congr fun _ => rfl

theorem flowsOf_emptied (entries : List Entry) :
    flowsOf kind (entries.map Entry.emptied) = (flowsOf kind entries).map fun _ => .missing := by
  unfold flowsOf
  rw [List.filterMap_map, List.map_filterMap]
  refine congrArg (entries.filterMap ·) (funext fun entry => ?_)
  cases entry with
  | flow k f => by_cases hk : k = kind <;> simp [Entry.emptied, hk]
  | _ => rfl

theorem filterMap_emptied {α : Type} (get? : Entry → Option α)
    (h : ∀ entry : Entry, get? entry.emptied = get? entry) (entries : List Entry) :
    (entries.map Entry.emptied).filterMap get? = entries.filterMap get? := by
  rw [List.filterMap_map]
  exact congrArg (entries.filterMap ·) (funext h)

theorem ofEntries_emptied (entries : List Entry) :
    Decoded.ofEntries (entries.map Entry.emptied) = (Decoded.ofEntries entries).emptied := by
  simp only [Decoded.ofEntries, Decoded.emptied, Decoded.withFlows, Decoded.flows, flowsOf_emptied]
  congr 1
  all_goals
    refine filterMap_emptied _ (fun entry => ?_) entries
    cases entry <;> rfl

/-- Decoding without dataflow facts takes the flows out of what decoding with them gives. -/
theorem decodeRecord_storeless (cx : DecodeContext) (r : Record) :
    decodeRecord cx.storeless r = Decoded.emptied <$> decodeRecord cx r := by
  unfold decodeRecord
  cases r.letters? with
  | none =>
    dsimp only
    split <;> rfl
  | some key =>
    obtain ⟨form, letters⟩ := key
    dsimp only
    split
    · rfl
    · rw [decodeLetters_storeless, bind_map_left, map_bind]
      refine bind_congr fun entries => ?_
      -- Nothing from here on looks at the flows.
      rw [ofEntries_emptied, map_bind]
      refine bind_congr fun rest => ?_
      rw [map_bind]
      refine bind_congr fun _ => ?_
      rw [map_bind]
      exact bind_congr fun _ => rfl

end

/-! ### Where flows come from -/

section

variable {cx : DecodeContext} {r : Record} {d d' : Decoded} {form : KeyForm} {letters : List Char}
  {args : List Int64} {kind : FlowKind}

theorem field?_eq_flows (letter : Char) :
    form.field? letter = some (.flows kind) ↔ letter = kind.letter := by
  constructor
  · intro h
    unfold KeyForm.field? at h
    split at h <;> cases h <;> rfl
  · rintro rfl
    exact field?_letter form kind

theorem Collects.flows_eq (h : Collects cx form letters args d) (kind : FlowKind) :
    d.flows kind = (argsUnder form (.flows kind) letters args).map (flowFact cx kind) := by
  have hflows : List.Forall₂ (CarriesFlow cx kind) (argsUnder form (.flows kind) letters args)
      (d.flows kind) := by
    cases kind with
    | reachingDef => exact h.reachingDefs
    | flagReachingDef => exact h.flagReachingDefs
    | defUse => exact h.defUses
    | defUseHigh => exact h.defUsesHigh
  have hfacts := List.forall₂_map_left_iff.mpr (hflows.imp fun _ _ => flowFact_eq.mpr)
  rw [List.forall₂_eq_eq_eq] at hfacts
  exact hfacts.symm

theorem flows_eq_nil (hd : decodeRecord cx r = .ok d)
    (h : ∀ form letters, r.key.toList = KeyForm.mark form ++ letters → kind.letter ∉ letters) :
    d.flows kind = [] := by
  obtain ⟨-, rfl⟩ | ⟨form, letters, hletters, -, hfields, -⟩ := decodeRecord_cases hd
  · cases kind <;> rfl
  · have habsent : kind.letter ∉ letters := h form letters (key_of_letters? hletters)
    have hnone : argsUnder form (.flows kind) letters r.args = [] := by
      rw [argsUnder, List.map_eq_nil_iff, List.filter_eq_nil_iff]
      rintro ⟨letter, raw⟩ hp hfield
      obtain rfl := (field?_eq_flows letter).mp (of_decide_eq_true hfield)
      exact habsent (List.of_mem_zip hp).1
    rw [hfields.flows_eq, hnone, List.map_nil]

theorem takesFlowsFrom (hd : decodeRecord cx r = .ok d) : d.TakesFlowsFrom cx.flows := by
  intro kind f hf
  obtain ⟨-, rfl⟩ | ⟨form, letters, -, -, hfields, -⟩ := decodeRecord_cases hd
  · cases kind <;> cases hf
  · rw [hfields.flows_eq] at hf
    obtain ⟨raw, -, hraw⟩ := List.mem_map.mp hf
    obtain ⟨-, ⟨store, hstore, hget⟩, hkind⟩ := flowFact_eq_present.mp hraw
    exact ⟨hkind, store, _, hstore, hget⟩

/-- Records that are the same without their flows differ in nothing else. -/
theorem eq_withFlows_of_emptied (h : d'.emptied = d.emptied) : d' = d.withFlows d'.flows :=
  calc
    d' = d'.emptied.withFlows d'.flows := by rw [Decoded.emptied, Decoded.withFlows_withFlows,
      Decoded.withFlows_flows]
    _ = d.emptied.withFlows d'.flows := by rw [h]
    _ = d.withFlows d'.flows := by rw [Decoded.emptied, Decoded.withFlows_withFlows]

theorem length_flows_of_emptied (h : d'.emptied = d.emptied) (kind : FlowKind) :
    (d'.flows kind).length = (d.flows kind).length := by
  have hlengths := congrArg (fun d => (Decoded.flows d kind).length) h
  simpa only [Decoded.flows_emptied, List.length_map] using hlengths

end

/-- **Dataflow facts make no difference but to the flows.** Against two contexts that differ in
their dataflow facts alone a record is refused with the same error, or it is decoded to fields that
are the same up to the flows, of which there are equally many. Without a letter of a flow in the key
all fields are the same. Every flow is of the kind its letter asks for. -/
theorem decode_up_to_flows (cx : DecodeContext) (store : Option FlowStore) (r : Record) :
    let outcome := (({ record := r } : InstrFacts).decode cx).decoded
    let outcome' := (({ record := r } : InstrFacts).decode { cx with flows := store }).decoded
    (∃ e, outcome = .error e ∧ outcome' = .error e) ∨
      ∃ d d', outcome = .ok d ∧ outcome' = .ok d' ∧ d' = d.withFlows d'.flows ∧
        (∀ kind, (d'.flows kind).length = (d.flows kind).length) ∧
        ((∀ form letters, r.key.toList = KeyForm.mark form ++ letters →
          ∀ kind : FlowKind, kind.letter ∉ letters) → d' = d) ∧
        d.TakesFlowsFrom cx.flows ∧ d'.TakesFlowsFrom store := by
  intro outcome outcome'
  have hsame : Decoded.emptied <$> outcome' = Decoded.emptied <$> outcome :=
    (decodeRecord_storeless { cx with flows := store } r).symm.trans (decodeRecord_storeless cx r)
  cases houtcome : outcome with
  | error e =>
    rw [houtcome] at hsame
    cases houtcome' : outcome' with
    | error e' =>
      rw [houtcome'] at hsame
      exact .inl ⟨e, rfl, congrArg Except.error (Except.error.inj hsame)⟩
    | ok d' =>
      rw [houtcome'] at hsame
      cases hsame
  | ok d =>
    rw [houtcome] at hsame
    obtain ⟨d', houtcome', hd'⟩ := map_eq_ok.mp hsame
    have hfields := eq_withFlows_of_emptied hd'
    refine .inr ⟨d, d', rfl, houtcome', hfields, length_flows_of_emptied hd', fun hletters => ?_,
      takesFlowsFrom houtcome, takesFlowsFrom houtcome'⟩
    have hflows : d'.flows = d.flows := funext fun kind => by
      rw [flows_eq_nil houtcome fun form letters hkey => hletters form letters hkey kind,
        flows_eq_nil houtcome' fun form letters hkey => hletters form letters hkey kind]
    rw [hfields, hflows, Decoded.withFlows_flows]

end FactLift
