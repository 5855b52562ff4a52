import FactLift.Dictionary.Decode
import FactLift.Proofs.Record.Table
import Mathlib.Logic.Relation

/-! The decoding rules of a dictionary, without a limit on depth.

A node is a place of the dictionary: a kind of value and an index. `Rule` has the table of records
as inference rules: from the values of the nodes that a record refers to, it concludes the value of
the record's own node. `Derivation` is a finite tree of such steps, and `Derivation.StaysWithin`
bounds how deep its records lie. Which nodes a record refers to can be read off without any values
(`references`), and the premises of a rule are exactly these (`Rule.nodes_eq`); so the references
that a derivation follows never lead back to where they came from (`Derivation.acc`), and the
derivation is no deeper than the chains of references are long
(`Derivation.staysWithin_of_chains`). -/

namespace FactLift

open FactLift.Sym

/-- The tag at a position as an integer. -/
def Content.integer? (c : Content) (n : Nat) : Option Int64 :=
  c.tags[n]?.bind Text.parseInt64?

namespace Dictionary

/-! ### Nodes and values -/

/-- The kinds of values that a dictionary describes. -/
inductive Kind
  | var | meaning | base | offset | fixedValue | expr | interval
deriving DecidableEq, Repr

def Kind.table : Kind → TableName
  | var => .vars
  | meaning => .meanings
  | base => .bases
  | offset => .offsets
  | fixedValue => .fixedValues
  | expr => .exprs
  | interval => .intervals

/-- The value of a kind at an index. -/
structure Node where
  kind : Kind
  index : Nat
deriving DecidableEq, Repr

/-- A value of any kind. -/
inductive Value
  | var (v : Variable)
  | meaning (m : Meaning)
  | base (b : Base)
  | offset (o : Offset)
  | fixedValue (f : FixedValue)
  | expr (x : Expr)
  | interval (i : Interval)

def Value.kind : Value → Kind
  | var _ => .var
  | meaning _ => .meaning
  | base _ => .base
  | offset _ => .offset
  | fixedValue _ => .fixedValue
  | expr _ => .expr
  | interval _ => .interval

/-- The symbol that the record of a variable names. -/
def symbolOf? (c : Content) : Option Nat :=
  if c.tags = [] then none else c.index? 0

/-- The record that settles what a node is: its own, or the symbol's if it is a variable. -/
def content? (d : Dictionary) (n : Node) : Option Content :=
  match n.kind with
  | .var => ((d.vars.content? n.index).bind symbolOf?).bind d.symbols.content?
  | kind => (d.table kind.table).content? n.index

theorem symbolOf?_eq_some {c : Content} {i : Nat} :
    symbolOf? c = some i ↔ 1 ≤ c.tags.length ∧ c.index? 0 = some i := by
  unfold symbolOf?
  split
  next h => simp [h]
  next h => simp [Nat.one_le_iff_ne_zero, h]

/-- The record of a variable is that of the symbol that its own record names. -/
theorem content?_var {d : Dictionary} {i : Nat} {c : Content} :
    d.content? ⟨.var, i⟩ = some c ↔ ∃ own s, d.vars.content? i = some own ∧
      1 ≤ own.tags.length ∧ own.index? 0 = some s ∧ d.symbols.content? s = some c := by
  simp only [content?, Option.bind_eq_some_iff, symbolOf?_eq_some]
  constructor
  · rintro ⟨s, ⟨own, hown, htags, hs⟩, hc⟩
    exact ⟨own, s, hown, htags, hs, hc⟩
  · rintro ⟨own, s, hown, htags, hs, hc⟩
    exact ⟨s, ⟨own, hown, htags, hs⟩, hc⟩

/-! ### Rules -/

/-- The text is that of a bound, or leaves the side open. -/
def IsBound (unbounded text : String) : Option Int64 → Prop
  | none => text = unbounded
  | some v => Text.parseInt64? text = some v

/-- The value of a node with a given record, from the values of further nodes. -/
inductive Rule : Kind → Content → List (Node × Value) → Value → Prop
  | unnumbered {c : Content} {name : String} {number : Int64} :
      c.tags[0]? = some name → c.args[0]? = some number → number ≤ 0 →
      Rule .var c [] (.var ⟨name, number, .absent⟩)
  | denoting {c : Content} {name : String} {number : Int64} {i : Nat} {m : Meaning} :
      c.tags[0]? = some name → c.args[0]? = some number → 0 < number → c.index? 0 = some i →
      Rule .var c [(⟨.meaning, i⟩, .meaning m)] (.var ⟨name, number, m⟩)
  | register {c : Content} {name : String} :
      c.tags[0]? = some "r" → c.tags[1]? = some name →
      Rule .meaning c [] (.meaning (.register name))
  | flag {c : Content} {name : String} :
      c.tags[0]? = some "f" → c.tags[1]? = some name →
      Rule .meaning c [] (.meaning (.flag name))
  | memory {c : Content} {i size j : Nat} {b : Base} {o : Offset} :
      c.tags[0]? = some "m" → c.index? 0 = some i → c.index? 1 = some size → c.index? 2 = some j →
      Rule .meaning c [(⟨.base, i⟩, .base b), (⟨.offset, j⟩, .offset o)]
        (.meaning (.memory b size o))
  | fixed {c : Content} {i : Nat} {f : FixedValue} :
      c.tags[0]? = some "a" → c.index? 0 = some i →
      Rule .meaning c [(⟨.fixedValue, i⟩, .fixedValue f)] (.meaning (.fixed f))
  | localFrame {c : Content} : c.tags[0]? = some "l" → Rule .base c [] (.base .localFrame)
  | allocatedFrame {c : Content} : c.tags[0]? = some "a" → Rule .base c [] (.base .allocatedFrame)
  | realignedFrame {c : Content} : c.tags[0]? = some "r" → Rule .base c [] (.base .realignedFrame)
  | globals {c : Content} : c.tags[0]? = some "g" → Rule .base c [] (.base .globals)
  | pointer {c : Content} {i : Nat} {v : Variable} :
      c.tags[0]? = some "v" → c.index? 0 = some i →
      Rule .base c [(⟨.var, i⟩, .var v)] (.base (.pointer v))
  | unknownBase {c : Content} :
      c.tags[0]? = some "u" → Rule .base c [] (.base (.unknown (c.tags.getD 1 "")))
  | noOffset {c : Content} : c.tags[0]? = some "n" → Rule .offset c [] (.offset .none)
  | unknownOffset {c : Content} : c.tags[0]? = some "u" → Rule .offset c [] (.offset .unknown)
  | constOffset {c : Content} {value : Int64} {i : Nat} {o : Offset} :
      c.tags[0]? = some "c" → c.integer? 1 = some value → c.index? 0 = some i →
      Rule .offset c [(⟨.offset, i⟩, .offset o)] (.offset (.const value o))
  | fieldOffset {c : Content} {name : String} {key i : Nat} {o : Offset} :
      c.tags[0]? = some "f" → c.tags[1]? = some name → c.index? 0 = some key →
      c.index? 1 = some i →
      Rule .offset c [(⟨.offset, i⟩, .offset o)] (.offset (.field name key o))
  | indexOffset {c : Content} {i j : Nat} {x : Expr} {o : Offset} :
      c.tags[0]? = some "a" → c.index? 0 = some i → c.index? 1 = some j →
      Rule .offset c [(⟨.expr, i⟩, .expr x), (⟨.offset, j⟩, .offset o)] (.offset (.index x o))
  | indexVarOffset {c : Content} {i elementSize j : Nat} {v : Variable} {o : Offset} :
      c.tags[0]? = some "i" → c.index? 0 = some i → c.index? 1 = some elementSize →
      c.index? 2 = some j →
      Rule .offset c [(⟨.var, i⟩, .var v), (⟨.offset, j⟩, .offset o)]
        (.offset (.indexVar v elementSize o))
  | initialRegister {c : Content} {name : String} :
      c.tags[0]? = some "ir" → c.tags[1]? = some name →
      Rule .fixedValue c [] (.fixedValue (.initialRegister name (c.args.headD 0)))
  | initialMemory {c : Content} {i : Nat} {v : Variable} :
      c.tags[0]? = some "iv" → c.index? 0 = some i →
      Rule .fixedValue c [(⟨.var, i⟩, .var v)] (.fixedValue (.initialMemory v))
  | returnValue {c : Content} {site : Int64} :
      c.tags[0]? = some "fr" → c.integer? 1 = some site →
      Rule .fixedValue c [] (.fixedValue (.returnValue site.toUInt64 c.tags[2]?))
  | symbolic {c : Content} {name : String} {i : Nat} {x : Expr} :
      c.tags[0]? = some "sv" → c.tags[1]? = some name → c.index? 0 = some i →
      Rule .fixedValue c [(⟨.expr, i⟩, .expr x)] (.fixedValue (.symbolic name x))
  | varExpr {c : Content} {i : Nat} {v : Variable} :
      c.tags[0]? = some "v" → c.index? 0 = some i →
      Rule .expr c [(⟨.var, i⟩, .var v)] (.expr (.var v))
  | narrowInt {c : Content} {value : Int64} :
      c.tags[0]? = some "c" → c.integer? 1 = some value → c.tags[2]? = none →
      Rule .expr c [] (.expr (.const (.atWidth value .w32)))
  | wideInt {c : Content} {value : Int64} :
      c.tags[0]? = some "c" → c.integer? 1 = some value → c.tags[2]? = some "w64" →
      Rule .expr c [] (.expr (.const (.atWidth value .w64)))
  | address {c : Content} {value : Int64} :
      c.tags[0]? = some "ga" → c.integer? 1 = some value →
      Rule .expr c [] (.expr (.const (.address value.toUInt64)))
  | apply {c : Content} {name : String} {op : Op} {operands : List (Nat × Expr)} :
      c.tags[0]? = some "x" → c.tags[1]? = some name → Op.ofName? name = some op →
      (List.range c.args.length).map c.index? = operands.map (some ·.1) →
      Rule .expr c (operands.map fun (i, x) => (⟨.expr, i⟩, .expr x))
        (.expr (.apply op (operands.map (·.2))))
  | interval {c : Content} {low high : String} {i : Interval} :
      c.tags[1]? = some low → c.tags[2]? = some high → IsBound "-oo" low i.low →
      IsBound "oo" high i.high → Rule .interval c [] (.interval i)

theorem Rule.kind_eq {kind : Kind} {c : Content} {premises : List (Node × Value)} {v : Value}
    (h : Rule kind c premises v) : v.kind = kind := by
  cases h <;> rfl

/-- A finite derivation of the value of a node. -/
inductive Derivation (d : Dictionary) : Node → Value → Type
  | step {n : Node} {c : Content} {v : Value} (premises : List (Node × Value))
      (held : d.content? n = some c) (rule : Rule n.kind c premises v)
      (subs : ∀ p ∈ premises, Derivation d p.1 p.2) : Derivation d n v

/-- No record that a derivation visits lies deeper than the limit, if its root lies at a depth. -/
def Derivation.StaysWithin {d : Dictionary} {n : Node} {v : Value} (limit : Nat) :
    Derivation d n v → (depth : Nat) → Prop
  | step _ _ _ subs, depth =>
    depth ≤ limit ∧ ∀ p hp, (subs p hp).StaysWithin limit (depth + 1)

/-! ### References -/

/-- The node at the index in an argument. -/
def nodesAt (c : Content) (kind : Kind) (n : Nat) : List Node :=
  (c.index? n).toList.map (⟨kind, ·⟩)

/-- The nodes that a record refers to. -/
def referencesOf (kind : Kind) (c : Content) : List Node :=
  match kind, c.tags[0]? with
  | .var, _ => (nodesAt c .meaning 0).filter (0 < ·.index)
  | .meaning, some "m" => nodesAt c .base 0 ++ nodesAt c .offset 2
  | .meaning, some "a" => nodesAt c .fixedValue 0
  | .base, some "v" => nodesAt c .var 0
  | .offset, some "c" => nodesAt c .offset 0
  | .offset, some "f" => nodesAt c .offset 1
  | .offset, some "a" => nodesAt c .expr 0 ++ nodesAt c .offset 1
  | .offset, some "i" => nodesAt c .var 0 ++ nodesAt c .offset 2
  | .fixedValue, some "iv" => nodesAt c .var 0
  | .fixedValue, some "sv" => nodesAt c .expr 0
  | .expr, some "v" => nodesAt c .var 0
  | .expr, some "x" => (List.range c.args.length).flatMap (nodesAt c .expr)
  | _, _ => []

/-- The nodes that the record of a node refers to. -/
def references (d : Dictionary) (n : Node) : List Node :=
  ((d.content? n).map (referencesOf n.kind)).getD []

/-- The record of the first node refers to the second. -/
def Refers (d : Dictionary) (n m : Node) : Prop :=
  m ∈ d.references n

instance (d : Dictionary) (n m : Node) : Decidable (d.Refers n m) :=
  inferInstanceAs (Decidable (m ∈ d.references n))

/-- The references from a node lead to one from which they lead back to itself. -/
def ReachesCycle (d : Dictionary) (n : Node) : Prop :=
  ∃ m, Relation.ReflTransGen d.Refers n m ∧ Relation.TransGen d.Refers m m

theorem references_eq {d : Dictionary} {n : Node} {c : Content} (h : d.content? n = some c) :
    d.references n = referencesOf n.kind c := by
  rw [references, h]
  rfl

/-- A symbol refers to a meaning exactly if its number is positive. -/
theorem referencesOf_var {c : Content} {number : Int64} (h : c.args[0]? = some number) :
    referencesOf .var c = if 0 < number then nodesAt c .meaning 0 else [] := by
  have hpos : 0 < number ↔ 0 < number.toInt := Int64.lt_iff_toInt_lt
  simp only [referencesOf, nodesAt, Content.index?, h, Option.bind_some]
  cases hi : number.toInt.toNat? with
  | none => simp
  | some i =>
    have hi : number.toInt = i := Int.mem_toNat?.mp hi
    by_cases hn : 0 < i
    · rw [if_pos (hpos.mpr (by omega))]
      simp [hn]
    · rw [if_neg (mt hpos.mp (by omega))]
      simp [hn]

/-- The premises of a rule are about the nodes that the record refers to. -/
theorem Rule.nodes_eq {kind : Kind} {c : Content} {premises : List (Node × Value)} {v : Value}
    (h : Rule kind c premises v) : premises.map (·.1) = referencesOf kind c := by
  cases h with
  | unnumbered _ hnumber hle =>
    rw [referencesOf_var hnumber, if_neg (Int64.not_lt.mpr hle)]
    rfl
  | denoting _ hnumber hlt hi =>
    rw [referencesOf_var hnumber, if_pos hlt]
    simp [nodesAt, hi]
  | @apply _ _ _ operands htag _ _ hargs =>
    have hnodes : (List.range c.args.length).flatMap (nodesAt c .expr) =
        ((List.range c.args.length).map c.index?).flatMap
          fun i => i.toList.map (⟨.expr, ·⟩) := by
      rw [List.flatMap_map]
      rfl
    simp only [referencesOf, htag, hnodes, hargs, List.flatMap_map]
    rw [List.map_map, List.map_eq_flatMap]
    rfl
  | interval => simp [referencesOf]
  | _ => simp_all [referencesOf, nodesAt]

section

variable {d : Dictionary} {n : Node} {v : Value}

theorem Rule.refers {c : Content} {premises : List (Node × Value)} (held : d.content? n = some c)
    (rule : Rule n.kind c premises v) (m : Node) :
    d.Refers n m ↔ ∃ p ∈ premises, p.1 = m := by
  rw [Refers, references_eq held, ← rule.nodes_eq, List.mem_map]

/-- References from a node with a derivation cannot be followed for ever. -/
theorem Derivation.acc (t : Derivation d n v) : Acc (fun m n => d.Refers n m) n := by
  induction t with
  | step premises held rule subs ih =>
    refine Acc.intro _ fun m hm => ?_
    obtain ⟨p, hp, rfl⟩ := (rule.refers held m).mp hm
    exact ih p hp

theorem not_refers_back (h : Acc (fun m n => d.Refers n m) n) :
    ¬ Relation.TransGen d.Refers n n := by
  rw [← acc_transGen_iff] at h
  rw [← Relation.transGen_swap]
  induction h with
  | intro n _ ih => exact fun hcycle => ih n hcycle hcycle

theorem Derivation.not_reachesCycle (t : Derivation d n v) : ¬ d.ReachesCycle n := by
  rintro ⟨m, hreach, hcycle⟩
  refine not_refers_back ?_ hcycle
  clear hcycle
  induction hreach with
  | refl => exact t.acc
  | tail _ hlast ih => exact ih.inv hlast

/-- Starting less deep leaves more room. -/
theorem Derivation.StaysWithin.mono {limit : Nat} {t : Derivation d n v} {depth depth' : Nat}
    (h : t.StaysWithin limit depth) (hle : depth' ≤ depth) : t.StaysWithin limit depth' := by
  induction t generalizing depth depth' with
  | step premises held rule subs ih =>
    exact ⟨Nat.le_trans hle h.1, fun p hp => ih p hp (h.2 p hp) (Nat.succ_le_succ hle)⟩

/-- A chain of references from a node. -/
def IsChain (d : Dictionary) (n : Node) (chain : List Node) : Prop :=
  List.IsChain d.Refers (n :: chain)

/-- A derivation is no deeper than the chains of references are long. -/
theorem Derivation.staysWithin_of_chains {limit : Nat} (t : Derivation d n v) {depth : Nat}
    (h : ∀ chain, d.IsChain n chain → depth + chain.length ≤ limit) :
    t.StaysWithin limit depth := by
  induction t generalizing depth with
  | step premises held rule subs ih =>
    refine ⟨h [] (.singleton _), fun p hp => ih p hp fun chain hchain => ?_⟩
    have hfirst := (rule.refers held p.1).mpr ⟨p, hp, rfl⟩
    have := h (p.1 :: chain) (.cons_cons hfirst hchain)
    simp only [List.length_cons] at this
    omega

/-- A chain of references is no longer than the derivation leaves room for. -/
theorem Derivation.StaysWithin.length_le {limit : Nat} {t : Derivation d n v} {depth : Nat}
    (h : t.StaysWithin limit depth) {chain : List Node} (hchain : d.IsChain n chain) :
    depth + chain.length ≤ limit := by
  induction t generalizing depth chain with
  | step premises held rule subs ih =>
    cases hchain with
    | singleton => exact h.1
    | cons_cons hfirst hrest =>
      obtain ⟨p, hp, rfl⟩ := (rule.refers held _).mp hfirst
      have := ih p hp (h.2 p hp) hrest
      simp only [List.length_cons]
      omega

end

end Dictionary

end FactLift
