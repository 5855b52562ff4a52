import FactLift.Proofs.Provenance.Mapping
import FactLift.Provenance.Basic

/-! What is kept of the nodes that a provenance speaks about.

A `Recording` is a call that records something. It keeps nodes under their numbers
(`Recording.kept`), and it may link some of them (`Recording.links`); what these do to the tables of
one kind is the same for the three kinds (`mapping_record`, `nodes_record`). After any calls the
mapping of a kind is that of the linking calls alone, and a node is kept as the first call had it
(`mapping_recordAll`, `nodes_recordAll`). So no link leads to a node that is missing
(`kept_of_mentions`). -/

namespace FactLift

open C

def NodeKind.Tree : NodeKind → Type
  | instruction => Action
  | expression => Expr
  | lvalue => Lval

/-- A call that records something. -/
inductive Recording
  | mapInstr (low high : Instr) (site : Option UInt64)
  | mapExpr (low high : Tracked Expr) (site : Option UInt64)
  | mapLval (low high : Tracked Lval) (site : Option UInt64)
  | addReachingDefs (e : Tracked Expr) (flows : List Flow)
  | addFlagReachingDefs (e : Tracked Expr) (flows : List Flow)
  | addDefUse (l : Tracked Lval) (flow : Option Flow)
  | addDefUseHigh (l : Tracked Lval) (flow : Option Flow)
  | inactivate (lval : Nat) (location : String)
  | addStore (l : Tracked Lval)
  | addSpan (i : Instr) (span : ByteSpan)
  | addAddresses (i : Instr) (addresses : List UInt64)
  | addConditionAddresses (e : Tracked Expr) (addresses : List UInt64)

namespace Recording

/-- The nodes of a kind that a call keeps. -/
def kept : (kind : NodeKind) → Recording → List (Tracked kind.Tree)
  | .instruction, mapInstr low high _ => [low, high]
  | .instruction, addSpan i _ => [i]
  | .instruction, addAddresses i _ => [i]
  | .expression, mapExpr low high _ => [low, high]
  | .expression, addReachingDefs e flows => if flows.isEmpty then [] else [e]
  | .expression, addFlagReachingDefs e flows => if flows.isEmpty then [] else [e]
  | .expression, addConditionAddresses e _ => [e]
  | .lvalue, mapLval low high _ => [low, high]
  | .lvalue, addDefUse l flow => if flow.isSome then [l] else []
  | .lvalue, addDefUseHigh l flow => if flow.isSome then [l] else []
  | .lvalue, addStore l => [l]
  | _, _ => []

/-- The nodes of a kind that a call links. -/
def links : NodeKind → Recording → List Registration
  | .instruction, mapInstr low high site => [⟨low.id, high.id, site⟩]
  | .expression, mapExpr low high site => [⟨low.id, high.id, site⟩]
  | .lvalue, mapLval low high site => [⟨low.id, high.id, site⟩]
  | _, _ => []

/-- What a call links is what it keeps. -/
theorem kept_of_mem_links {kind : NodeKind} {call : Recording} {link : Registration}
    (h : link ∈ call.links kind) :
    ∃ low high, call.kept kind = [low, high] ∧ link.low = low.id ∧ link.high = high.id := by
  cases call <;> cases kind <;> simp only [links, List.mem_singleton, List.not_mem_nil] at h
  all_goals exact ⟨_, _, rfl, congrArg Registration.low h, congrArg Registration.high h⟩

end Recording

/-- What a table has under a number stays, and a new entry goes to its own number. -/
theorem getElem?_insertIfNew_or {τ : Type} (table : Std.TreeMap Nat τ) (id k : Nat) (tree : τ) :
    (table.insertIfNew id tree)[k]? =
      if id = k then table[k]?.or (some tree) else table[k]? := by
  rw [Std.TreeMap.getElem?_insertIfNew]
  by_cases h : id = k
  · subst h
    cases hkept : table[id]? with
    | some t => simp [Std.TreeMap.mem_iff_isSome_getElem?, hkept]
    | none => simp [Std.TreeMap.mem_iff_isSome_getElem?, hkept]
  · simp [h]

/-- Keeps nodes under their numbers, unless there is one already. -/
def keepAll {τ : Type} (table : Std.TreeMap Nat τ) (nodes : List (Tracked τ)) : Std.TreeMap Nat τ :=
  nodes.foldl (fun table node => table.insertIfNew node.id node.tree) table

/-- The first node with a number is the one that is kept. -/
theorem getElem?_keepAll {τ : Type} (table : Std.TreeMap Nat τ) (nodes : List (Tracked τ))
    (id : Nat) :
    (keepAll table nodes)[id]? =
      table[id]?.or ((nodes.find? (·.id = id)).map Tracked.tree) := by
  induction nodes generalizing table with
  | nil => simp [keepAll]
  | cons node nodes ih =>
    rw [keepAll, List.foldl_cons, ← keepAll, ih, getElem?_insertIfNew_or]
    by_cases h : node.id = id
    · simp [h]
    · simp [h]

namespace Provenance

def mapping (p : Provenance) : NodeKind → NodeMapping
  | .instruction => p.instrs
  | .expression => p.exprs
  | .lvalue => p.lvals

def nodes (p : Provenance) : (kind : NodeKind) → Std.TreeMap Nat kind.Tree
  | .instruction => p.instructions
  | .expression => p.expressions
  | .lvalue => p.lvalues

/-- Makes a call. -/
def record (p : Provenance) : Recording → Provenance × Option Diagnostic
  | .mapInstr low high site => p.mapInstr low high site
  | .mapExpr low high site => p.mapExpr low high site
  | .mapLval low high site => p.mapLval low high site
  | .addReachingDefs e flows => (p.addReachingDefs e flows, none)
  | .addFlagReachingDefs e flows => (p.addFlagReachingDefs e flows, none)
  | .addDefUse l flow => (p.addDefUse l flow, none)
  | .addDefUseHigh l flow => (p.addDefUseHigh l flow, none)
  | .inactivate lval location => (p.inactivate lval location, none)
  | .addStore l => (p.addStore l, none)
  | .addSpan i span => (p.addSpan i span, none)
  | .addAddresses i addresses => (p.addAddresses i addresses, none)
  | .addConditionAddresses e addresses => (p.addConditionAddresses e addresses, none)

/-- Makes calls one after the other. -/
def recordAll (p : Provenance) (calls : List Recording) : Provenance :=
  calls.foldl (fun p call => (p.record call).1) p

theorem mapping_record (p : Provenance) (call : Recording) (kind : NodeKind) :
    (p.record call).1.mapping kind = ((p.mapping kind).registerAll kind (call.links kind)).1 := by
  cases call with
  | addReachingDefs e flows => cases flows <;> cases kind <;> rfl
  | addFlagReachingDefs e flows => cases flows <;> cases kind <;> rfl
  | addDefUse l flow => cases flow <;> cases kind <;> rfl
  | addDefUseHigh l flow => cases flow <;> cases kind <;> rfl
  | _ => cases kind <;> rfl

theorem nodes_record (p : Provenance) (call : Recording) (kind : NodeKind) :
    (p.record call).1.nodes kind = keepAll (p.nodes kind) (call.kept kind) := by
  cases call with
  | addReachingDefs e flows => cases flows <;> cases kind <;> rfl
  | addFlagReachingDefs e flows => cases flows <;> cases kind <;> rfl
  | addDefUse l flow => cases flow <;> cases kind <;> rfl
  | addDefUseHigh l flow => cases flow <;> cases kind <;> rfl
  | _ => cases kind <;> rfl

/-! ### All calls -/

theorem mapping_empty (kind : NodeKind) : mapping {} kind = {} := by
  cases kind <;> rfl

theorem nodes_empty (kind : NodeKind) : nodes {} kind = ∅ := by
  cases kind <;> rfl

section Run

variable (p : Provenance) (calls : List Recording) (kind : NodeKind)

/-- The mapping of a kind is that of the links alone. -/
theorem mapping_recordAll :
    (p.recordAll calls).mapping kind =
      ((p.mapping kind).registerAll kind (calls.flatMap (Recording.links kind))).1 := by
  induction calls generalizing p with
  | nil => rfl
  | cons call calls ih =>
    rw [List.flatMap_cons, NodeMapping.registerAll_append, ← mapping_record]
    exact ih (p.record call).1

/-- The nodes of a kind are those that the calls keep. -/
theorem nodes_recordAll :
    (p.recordAll calls).nodes kind =
      keepAll (p.nodes kind) (calls.flatMap (Recording.kept kind)) := by
  induction calls generalizing p with
  | nil => rfl
  | cons call calls ih =>
    rw [List.flatMap_cons, keepAll, List.foldl_append, ← keepAll, ← keepAll, ← nodes_record]
    exact ih (p.record call).1

end Run

/-- What the last call that writes something has written is what is there after all calls. -/
theorem view_recordAll {β : Type} (view : Provenance → Option β) {written : Recording → Option β}
    (hview : ∀ p call, view (p.record call).1 = (written call).or (view p)) (p : Provenance)
    (calls : List Recording) :
    view (p.recordAll calls) = (calls.filterMap written).getLast?.or (view p) := by
  induction calls generalizing p with
  | nil => rfl
  | cons call calls ih =>
    rw [recordAll, List.foldl_cons, ← recordAll, ih, hview, List.filterMap_cons]
    cases written call with
    | none => rfl
    | some b => cases hrest : (calls.filterMap written).getLast? <;> simp [List.getLast?_cons, hrest]

section Kept

variable {calls : List Recording} (kind : NodeKind)

/-- Every number in a mapping has a node, which some call had under this number. -/
theorem kept_of_mentions {id : Nat} (h : ((recordAll {} calls).mapping kind).Mentions id) :
    ∃ node ∈ calls.flatMap (Recording.kept kind),
      node.id = id ∧ ((recordAll {} calls).nodes kind)[id]? = some node.tree := by
  rw [mapping_recordAll, mapping_empty] at h
  obtain ⟨link, hlink, hid⟩ := h.of_registerAll.resolve_left (NodeMapping.not_mentions_empty id)
  obtain ⟨call, hcall, hlink⟩ := List.mem_flatMap.mp hlink
  obtain ⟨low, high, hkept, hlow, hhigh⟩ := Recording.kept_of_mem_links hlink
  have hsome : ((calls.flatMap (Recording.kept kind)).find? (·.id = id)).isSome := by
    rw [List.find?_isSome]
    rcases hid with hid | hid
    · exact ⟨low, List.mem_flatMap.mpr ⟨call, hcall, by simp [hkept]⟩, by simp [hid, hlow]⟩
    · exact ⟨high, List.mem_flatMap.mpr ⟨call, hcall, by simp [hkept]⟩, by simp [hid, hhigh]⟩
  obtain ⟨node, hnode⟩ := Option.isSome_iff_exists.mp hsome
  refine ⟨node, List.mem_of_find?_eq_some hnode, by simpa using List.find?_some hnode, ?_⟩
  rw [nodes_recordAll, nodes_empty, getElem?_keepAll, hnode, Std.TreeMap.getElem?_emptyc]
  rfl

theorem isSome_of_mentions {id : Nat} (h : ((recordAll {} calls).mapping kind).Mentions id) :
    ((recordAll {} calls).nodes kind)[id]?.isSome := by
  obtain ⟨node, -, -, hnode⟩ := kept_of_mentions kind h
  rw [hnode]
  rfl

/-- Following a link finds a node. -/
theorem isSome_high (low : Nat) :
    ((((recordAll {} calls).mapping kind).high? low).bind fun high =>
      ((recordAll {} calls).nodes kind)[high]?).isSome =
      (((recordAll {} calls).mapping kind).high? low).isSome := by
  cases h : ((recordAll {} calls).mapping kind).high? low with
  | none => rfl
  | some high => exact isSome_of_mentions kind (.high h)

end Kept

/-- **Mappings are inverses of each other, and lead to nodes that are kept.** After any calls on a
mapping its two directions agree, without repetition; the last call decides where its node leads;
and there is one report for each call that found its node mapped elsewhere. After any recordings
every number in a mapping has a node that was recorded with this number, so looking up what a node
was lifted to or from finds a node for every link. -/
theorem mappings_inverse_and_kept :
    (∀ (kind : NodeKind) (calls : List Registration),
      let run := NodeMapping.registerAll kind {} calls
      (∀ low high, low ∈ run.1.lows high ↔ run.1.high? low = some high) ∧
      (∀ high, (run.1.lows high).Nodup) ∧
      (∀ call : Registration,
        (NodeMapping.registerAll kind {} (calls ++ [call])).1.high? call.low = some call.high) ∧
      run.2.countP (·.kind = .provenanceOverwrite) = NodeMapping.moves kind {} calls ∧
      ∀ report ∈ run.2, report.kind = .provenanceOverwrite) ∧
    (∀ calls : List Recording,
      let p := recordAll {} calls
      (∀ kind id, (p.mapping kind).Mentions id →
        ∃ node ∈ calls.flatMap (Recording.kept kind),
          node.id = id ∧ (p.nodes kind)[id]? = some node.tree) ∧
      (∀ low, (p.highInstruction? low).isSome = (p.instrs.high? low).isSome) ∧
      (∀ low, (p.highExpression? low).isSome = (p.exprs.high? low).isSome) ∧
      (∀ low, (p.highLvalue? low).isSome = (p.lvals.high? low).isSome) ∧
      ∀ high, (p.lowInstructions high).length = (p.instrs.lows high).length) := by
  constructor
  · intro kind calls run
    have hinverse : run.1.Inverse := NodeMapping.inverse_empty.registerAll kind calls
    have hkinds := NodeMapping.registerAll_reports (m := {}) kind calls
    refine ⟨hinverse.mem_lows, hinverse.nodup, NodeMapping.high?_registerAll_concat kind calls,
      ?_, fun report hreport => ?_⟩
    · have hcount : run.2.countP (·.kind = .provenanceOverwrite) =
          (run.2.map Diagnostic.kind).count .provenanceOverwrite := by
        rw [List.count, List.countP_map]
        rfl
      rw [hcount, hkinds, List.count_replicate_self]
    · have hmem := List.mem_map_of_mem (f := Diagnostic.kind) hreport
      rw [hkinds] at hmem
      exact List.eq_of_mem_replicate hmem
  · intro calls p
    refine ⟨fun kind id => kept_of_mentions kind, isSome_high .instruction,
      isSome_high .expression, isSome_high .lvalue, fun high => ?_⟩
    rw [lowInstructions, List.filterMap_length_eq_length]
    exact fun low hlow => isSome_of_mentions .instruction (.listed hlow)

/-- Instruction 1 is linked to 2 and then moved to 3, which leaves nothing for 2. -/
def movedInstr : List Recording :=
  [.mapInstr ⟨1, .nop "low"⟩ ⟨2, .nop "first"⟩ none,
    .mapInstr ⟨1, .nop "low"⟩ ⟨3, .nop "second"⟩ none]

/-- A number stays in the mapping when its last link is moved, and its node stays with it. -/
theorem mappings_inverse_and_kept_of_moved :
    ((recordAll {} movedInstr).mapping .instruction).Mentions 2 ∧
      (recordAll {} movedInstr).instrs.lows 2 = [] ∧
      ∃ node ∈ movedInstr.flatMap (Recording.kept .instruction), node.id = 2 ∧
        ((recordAll {} movedInstr).nodes .instruction)[2]? = some node.tree := by
  have hkey : ((recordAll {} movedInstr).mapping .instruction).Mentions 2 :=
    .key (by decide)
  exact ⟨hkey, by decide, (mappings_inverse_and_kept.2 movedInstr).1 .instruction 2 hkey⟩

end Provenance

end FactLift
