import FactLift.Dictionary.Mint
import FactLift.Proofs.Dictionary.Growth
import FactLift.Proofs.Text.Integer

/-! Minting and decoding are inverse.

`Call` lists the calls that mint values and `Call.Describes` says what value a call describes, from
the values of its operands. `Minted` is a session of such calls, each with operands that earlier
calls gave. What a call writes (`Call.form`) is kept by later calls (`Form.written`); the
rule for that record turns the values of the operands into the value described (`settles`), so that
by induction along the session every index given has a derivation (`Minted.settled`), and
`minted_decode` follows where the references from the index are not nested too deep. -/

namespace FactLift

open FactLift.Sym

namespace Dictionary

/-! ### Calls -/

/-- The calls that mint values. -/
inductive Call
  | register (name : String)
  | flag (name : String)
  | temporary (name : String)
  | memory (name : String) (base size offset : Nat)
  | fixed (name : String) (value : Nat)
  | localFrame
  | globalBase
  | variableBase (v : Nat)
  | unknownBase (description : String)
  | noOffset
  | constOffset (value : Int64) (sub : Nat)
  | fieldOffset (name : String) (key sub : Nat)
  | indexOffset (i sub : Nat)
  | indexVarOffset (v elementSize sub : Nat)
  | initialRegister (name : String)
  | initialMemory (v : Nat)
  | returnValue (callSite : UInt64) (callee : Option String)
  | symbolic (name : String) (x : Nat)
  | varExpr (v : Nat)
  | intExpr (value : Int64)
  | addressExpr (a : UInt64)
  | applyExpr (op : Op) (operands : List Nat)
  | interval (low high : Option Int64)

namespace Call

/-- What a call does; it gives an index. -/
def mint : Call → Mint Nat
  | register name => Mint.register name
  | flag name => Mint.flag name
  | temporary name => Mint.temporary name
  | memory name base size offset => Mint.memory name base size offset
  | fixed name value => Mint.fixed name value
  | localFrame => Mint.localFrame
  | globalBase => Mint.globalBase
  | variableBase v => Mint.variableBase v
  | unknownBase description => Mint.unknownBase description
  | noOffset => Mint.noOffset
  | constOffset value sub => Mint.constOffset value sub
  | fieldOffset name key sub => Mint.fieldOffset name key sub
  | indexOffset i sub => Mint.indexOffset i sub
  | indexVarOffset v elementSize sub => Mint.indexVarOffset v elementSize sub
  | initialRegister name => Mint.initialRegister name
  | initialMemory v => Mint.initialMemory v
  | returnValue callSite callee => Mint.returnValue callSite callee
  | symbolic name x => Mint.symbolic name x
  | varExpr v => Mint.varExpr v
  | intExpr value => Mint.intExpr value
  | addressExpr a => Mint.addressExpr a
  | applyExpr op operands => Mint.applyExpr op operands
  | interval low high => Mint.interval low high

def kind : Call → Kind
  | register _ | flag _ | temporary _ | memory .. | fixed .. => .var
  | localFrame | globalBase | variableBase _ | unknownBase _ => .base
  | noOffset | constOffset .. | fieldOffset .. | indexOffset .. | indexVarOffset .. => .offset
  | initialRegister _ | initialMemory _ | returnValue .. | symbolic .. => .fixedValue
  | varExpr _ | intExpr _ | addressExpr _ | applyExpr .. => .expr
  | interval .. => .interval

def operands : Call → List Node
  | memory _ base _ offset => [⟨.base, base⟩, ⟨.offset, offset⟩]
  | fixed _ value => [⟨.fixedValue, value⟩]
  | variableBase v | initialMemory v | varExpr v => [⟨.var, v⟩]
  | constOffset _ sub | fieldOffset _ _ sub => [⟨.offset, sub⟩]
  | indexOffset i sub => [⟨.expr, i⟩, ⟨.offset, sub⟩]
  | indexVarOffset v _ sub => [⟨.var, v⟩, ⟨.offset, sub⟩]
  | symbolic _ x => [⟨.expr, x⟩]
  | applyExpr _ operands => operands.map (⟨.expr, ·⟩)
  | _ => []

/-- The unsigned numbers that a call hands over can be written as signed ones. -/
def Fits : Call → Prop
  | memory _ _ size _ => size < 2 ^ 63
  | fieldOffset _ key _ => key < 2 ^ 63
  | indexVarOffset _ elementSize _ => elementSize < 2 ^ 63
  | returnValue callSite _ => callSite.toNat < 2 ^ 63
  | addressExpr a => a.toNat < 2 ^ 63
  | _ => True

/-- The value that a call describes, where `R` relates its operands to their values. -/
inductive Describes (R : Node → Value → Prop) : Call → Value → Prop
  | register {name : String} {number : Int64} : 0 < number →
      Describes R (.register name) (.var ⟨name, number, .register name⟩)
  | flag {name : String} {number : Int64} : 0 < number →
      Describes R (.flag name) (.var ⟨name, number, .flag name⟩)
  | temporary {name : String} : Describes R (.temporary name) (.var ⟨name, -1, .absent⟩)
  | memory {name : String} {base size offset : Nat} {number : Int64} {b : Base} {o : Offset} :
      0 < number → R ⟨.base, base⟩ (.base b) → R ⟨.offset, offset⟩ (.offset o) →
      Describes R (.memory name base size offset) (.var ⟨name, number, .memory b size o⟩)
  | fixed {name : String} {value : Nat} {number : Int64} {f : FixedValue} :
      0 < number → R ⟨.fixedValue, value⟩ (.fixedValue f) →
      Describes R (.fixed name value) (.var ⟨name, number, .fixed f⟩)
  | localFrame : Describes R .localFrame (.base .localFrame)
  | globalBase : Describes R .globalBase (.base .globals)
  | variableBase {i : Nat} {v : Variable} : R ⟨.var, i⟩ (.var v) →
      Describes R (.variableBase i) (.base (.pointer v))
  | unknownBase {description : String} :
      Describes R (.unknownBase description) (.base (.unknown description))
  | noOffset : Describes R .noOffset (.offset .none)
  | constOffset {value : Int64} {sub : Nat} {o : Offset} : R ⟨.offset, sub⟩ (.offset o) →
      Describes R (.constOffset value sub) (.offset (.const value o))
  | fieldOffset {name : String} {key sub : Nat} {o : Offset} : R ⟨.offset, sub⟩ (.offset o) →
      Describes R (.fieldOffset name key sub) (.offset (.field name key o))
  | indexOffset {i sub : Nat} {x : Expr} {o : Offset} :
      R ⟨.expr, i⟩ (.expr x) → R ⟨.offset, sub⟩ (.offset o) →
      Describes R (.indexOffset i sub) (.offset (.index x o))
  | indexVarOffset {i elementSize sub : Nat} {v : Variable} {o : Offset} :
      R ⟨.var, i⟩ (.var v) → R ⟨.offset, sub⟩ (.offset o) →
      Describes R (.indexVarOffset i elementSize sub) (.offset (.indexVar v elementSize o))
  | initialRegister {name : String} :
      Describes R (.initialRegister name) (.fixedValue (.initialRegister name 0))
  | initialMemory {i : Nat} {v : Variable} : R ⟨.var, i⟩ (.var v) →
      Describes R (.initialMemory i) (.fixedValue (.initialMemory v))
  | returnValue {callSite : UInt64} {callee : Option String} :
      Describes R (.returnValue callSite callee) (.fixedValue (.returnValue callSite callee))
  | symbolic {name : String} {i : Nat} {x : Expr} : R ⟨.expr, i⟩ (.expr x) →
      Describes R (.symbolic name i) (.fixedValue (.symbolic name x))
  | varExpr {i : Nat} {v : Variable} : R ⟨.var, i⟩ (.var v) →
      Describes R (.varExpr i) (.expr (.var v))
  | intExpr {value : Int64} :
      Describes R (.intExpr value) (.expr (.const (.int (Width.w32.normalize value) .w32)))
  | addressExpr {a : UInt64} : Describes R (.addressExpr a) (.expr (.const (.address a)))
  | applyExpr {op : Op} {operands : List Nat} {xs : List Expr} :
      List.Forall₂ (fun i x => R ⟨.expr, i⟩ (.expr x)) operands xs →
      Describes R (.applyExpr op operands) (.expr (.apply op xs))
  | interval {low high : Option Int64} :
      Describes R (.interval low high) (.interval ⟨low, high⟩)

end Call

/-- A session: calls with the indices that they gave, and the dictionary after all of them. Every
operand is an index that an earlier call gave for a value of its kind. -/
inductive Minted : List (Call × Nat) → Dictionary → Prop
  | nil : Minted [] {}
  | call {history : List (Call × Nat)} {d d' : Dictionary} {c : Call} {i : Nat} :
      Minted history d → c.Fits →
      (∀ n ∈ c.operands, ∃ earlier, (earlier, n.index) ∈ history ∧ earlier.kind = n.kind) →
      c.mint d = (i, d') → Minted (history ++ [(c, i)]) d'

/-- Every index can be written as an argument. Tables that fit into memory are far smaller. -/
def Addressable (d : Dictionary) : Prop :=
  ∀ name, (d.table name).size < 2 ^ 63

/-! ### What a call writes -/

/-- The ways in which calls write a value. -/
inductive Form
  /-- A record of its own. -/
  | record (kind : Kind) (c : Content)
  /-- A variable that denotes what a record says. -/
  | denoting (name : String) (c : Content)
  /-- A variable that denotes nothing. -/
  | temporary (name : String)

def Form.mint : Form → Mint Nat
  | record kind c => Mint.record kind.table c.tags c.args
  | denoting name c => Mint.denoting name c.tags c.args
  | temporary name => Mint.temporary name

def Call.form : Call → Form
  | register name => .denoting name ⟨["r", name], []⟩
  | flag name => .denoting name ⟨["f", name], []⟩
  | temporary name => .temporary name
  | memory name base size offset =>
    .denoting name ⟨["m"], [reference base, reference size, reference offset]⟩
  | fixed name value => .denoting name ⟨["a"], [reference value]⟩
  | localFrame => .record .base ⟨["l"], []⟩
  | globalBase => .record .base ⟨["g"], []⟩
  | variableBase v => .record .base ⟨["v"], [reference v]⟩
  | unknownBase description => .record .base ⟨["u", description], []⟩
  | noOffset => .record .offset ⟨["n"], []⟩
  | constOffset value sub => .record .offset ⟨["c", toString value.toInt], [reference sub]⟩
  | fieldOffset name key sub => .record .offset ⟨["f", name], [reference key, reference sub]⟩
  | indexOffset i sub => .record .offset ⟨["a"], [reference i, reference sub]⟩
  | indexVarOffset v elementSize sub =>
    .record .offset ⟨["i"], [reference v, reference elementSize, reference sub]⟩
  | initialRegister name => .record .fixedValue ⟨["ir", name], [0]⟩
  | initialMemory v => .record .fixedValue ⟨["iv"], [reference v]⟩
  | returnValue callSite callee =>
    .record .fixedValue ⟨["fr", Text.hex callSite.toNat] ++ callee.toList, []⟩
  | symbolic name x => .record .fixedValue ⟨["sv", name], [reference x]⟩
  | varExpr v => .record .expr ⟨["v"], [reference v]⟩
  | intExpr value => .record .expr ⟨["c", toString value.toInt], []⟩
  | addressExpr a => .record .expr ⟨["ga", Text.hex a.toNat], []⟩
  | applyExpr op operands => .record .expr ⟨["x", op.name], operands.map reference⟩
  | interval low high =>
    .record .interval ⟨["i", Interval.lowText low, Interval.highText high], []⟩

theorem Call.mint_eq (c : Call) : c.mint = c.form.mint := by
  cases c <;> rfl

section

variable {d D : Dictionary}

theorem content?_add (d : Dictionary) (name : TableName) (c : Content) :
    ((d.add name c).2.table name).content? (d.add name c).1 = some c := by
  simp only [add, table_setTable, if_true]
  exact ((d.table name).add_cases c).1

theorem Addressable.index_lt (h : D.Addressable) (name : TableName) {i : Nat} {c : Content}
    (hc : (D.table name).content? i = some c) : i < 2 ^ 63 :=
  Nat.lt_of_le_of_lt (Table.index_le_size hc) (h name)

/-- An index that is written as an argument is read back. -/
theorem index?_reference {c : Content} {n i : Nat} (h : c.args[n]? = some (reference i))
    (hi : i < 2 ^ 63) : c.index? n = some i := by
  rw [Content.index?, h, Option.bind_some, Int.mem_toNat?]
  exact Int64.toInt_ofNat_of_lt hi

/-- The argument for the index of a record is positive. -/
theorem reference_pos {t : Table} {i : Nat} {c : Content} (h : t.content? i = some c)
    (hi : i < 2 ^ 63) : 0 < reference i := by
  have hne : i ≠ 0 := by
    rintro rfl
    contradiction
  rw [Int64.lt_iff_toInt_lt, reference, Int64.toInt_ofNat_of_lt hi]
  exact Int.natCast_pos.mpr (Nat.pos_of_ne_zero hne)

/-- The records that a dictionary has for a value written in some form. -/
def Form.Written (D : Dictionary) (i : Nat) : Form → Prop
  | record kind c => (D.table kind.table).content? i = some c
  | denoting name c => ∃ m, m < 2 ^ 63 ∧
      D.content? ⟨.var, i⟩ = some ⟨[name], [reference m]⟩ ∧ D.content? ⟨.meaning, m⟩ = some c
  | temporary name => D.content? ⟨.var, i⟩ = some ⟨[name], [-1]⟩

/-- A variable is a symbol and a record that names it. -/
theorem numbered_eq (d : Dictionary) (name : String) (number : Int64) :
    Mint.numbered name number d =
      (d.add .symbols ⟨[name], [number]⟩).2.add .vars
        ⟨["v"], [reference (d.add .symbols ⟨[name], [number]⟩).1]⟩ := rfl

theorem extends_numbered (d : Dictionary) (name : String) (number : Int64) :
    d.Extends (Mint.numbered name number d).2 := by
  rw [numbered_eq]
  exact (extends_add d _ _).trans (extends_add _ _ _)

theorem Form.extends (f : Form) (d : Dictionary) : d.Extends (f.mint d).2 := by
  cases f with
  | record kind c => exact extends_add d _ _
  | denoting name c => exact (extends_add d _ _).trans (extends_numbered _ _ _)
  | temporary name => exact extends_numbered d name (-1)

/-- A variable is found with its name and number. -/
theorem numbered_written {name : String} {number : Int64} (hD : D.Addressable)
    (hext : (Mint.numbered name number d).2.Extends D) :
    D.content? ⟨.var, (Mint.numbered name number d).1⟩ = some ⟨[name], [number]⟩ := by
  have hsymbol := content?_add d .symbols ⟨[name], [number]⟩
  have hkept := (extends_add (d.add .symbols ⟨[name], [number]⟩).2 .vars _).trans hext
  have hsymbol := hkept .symbols hsymbol
  have hown := hext .vars (content?_add _ .vars _)
  exact content?_var.mpr
    ⟨_, _, hown, Nat.le_refl 1, index?_reference rfl (hD.index_lt .symbols hsymbol), hsymbol⟩

/-- What is written in a form is found in every larger dictionary. -/
theorem Form.written (f : Form) (hD : D.Addressable) (hext : (f.mint d).2.Extends D) :
    f.Written D (f.mint d).1 := by
  cases f with
  | record kind c => exact hext kind.table (content?_add d kind.table c)
  | denoting name c =>
    have hmeaning := content?_add d .meanings c
    have hmeaning := ((extends_numbered _ _ _).trans hext) .meanings hmeaning
    exact ⟨_, hD.index_lt .meanings hmeaning, numbered_written hD hext, hmeaning⟩
  | temporary name => exact numbered_written hD hext

/-! ### What is decoded -/

def Kind.Carrier : Kind → Type
  | var => Variable
  | meaning => Meaning
  | base => Base
  | offset => Offset
  | fixedValue => FixedValue
  | expr => Expr
  | interval => Interval

def Value.of : (kind : Kind) → kind.Carrier → Value
  | .var => var
  | .meaning => meaning
  | .base => base
  | .offset => offset
  | .fixedValue => fixedValue
  | .expr => expr
  | .interval => interval

/-- The node has a derivation. -/
def Derivable (d : Dictionary) (n : Node) : Prop :=
  ∃ a : n.kind.Carrier, Nonempty (d.Derivation n (.of n.kind a))

theorem Derivation.derivable {n : Node} {v : Value} (t : d.Derivation n v) : d.Derivable n := by
  obtain ⟨kind, i⟩ := n
  obtain rfl : v.kind = kind := by
    cases t with
    | step _ _ rule _ => exact rule.kind_eq
  cases v <;> exact ⟨_, ⟨t⟩⟩

theorem Derivable.index_lt {n : Node} (h : D.Derivable n) (hD : D.Addressable) :
    n.index < 2 ^ 63 := by
  obtain ⟨a, ⟨t⟩⟩ := h
  cases t with
  | step _ held _ _ =>
    obtain ⟨kind, i⟩ := n
    cases kind with
    | var =>
      obtain ⟨own, _, hown, -⟩ := content?_var.mp held
      exact hD.index_lt .vars hown
    | meaning => exact hD.index_lt .meanings held
    | base => exact hD.index_lt .bases held
    | offset => exact hD.index_lt .offsets held
    | fixedValue => exact hD.index_lt .fixedValues held
    | expr => exact hD.index_lt .exprs held
    | interval => exact hD.index_lt .intervals held

/-- The node has a derivation of the value that stays within the limit. -/
def DerivesWithin (d : Dictionary) (limit : Nat) (n : Node) (v : Value) : Prop :=
  ∃ t : d.Derivation n v, t.StaysWithin limit 0

/-- The index has a derivation of a value that the call describes, from values of the operands that
stay within any limit that the derivation itself stays within. -/
def Settles (d : Dictionary) (c : Call) (i : Nat) : Prop :=
  ∃ v, ∃ t : d.Derivation ⟨c.kind, i⟩ v,
    ∀ limit, t.StaysWithin limit 0 → c.Describes (d.DerivesWithin limit) v

theorem forall_pair {α : Type} {P : α → Prop} {a b : α} : (∀ x ∈ [a, b], P x) ↔ P a ∧ P b := by
  simp

variable {c : Call} {i : Nat} {content : Content} {premises : List (Node × Value)}

theorem settles_record {v : Value} (held : D.content? ⟨c.kind, i⟩ = some content)
    (rule : Rule c.kind content premises v)
    (hps : ∀ p ∈ premises, Nonempty (D.Derivation p.1 p.2))
    (hv : ∀ R : Node → Value → Prop, (∀ p ∈ premises, R p.1 p.2) → c.Describes R v) :
    D.Settles c i := by
  refine ⟨v, .step premises held rule fun p hp => (hps p hp).some, fun limit hlimit => ?_⟩
  exact hv _ fun p hp => ⟨_, (hlimit.2 p hp).mono (Nat.zero_le _)⟩

/-- A record that refers to one node. -/
theorem settles_one {n : Node} {v : n.kind.Carrier → Value} (hD : D.Addressable)
    (held : D.content? ⟨c.kind, i⟩ = some content) (hn : D.Derivable n)
    (rule : n.index < 2 ^ 63 → ∀ a, Rule c.kind content [(n, .of n.kind a)] (v a))
    (hv : ∀ (R : Node → Value → Prop) a, R n (.of n.kind a) → c.Describes R (v a)) :
    D.Settles c i := by
  have hlt := hn.index_lt hD
  obtain ⟨a, ha⟩ := hn
  exact settles_record held (rule hlt a) (List.forall_mem_singleton.mpr ha)
    fun R hR => hv R a (hR _ (List.mem_singleton_self _))

/-- A record that refers to two nodes. -/
theorem settles_two {m n : Node} {v : m.kind.Carrier → n.kind.Carrier → Value}
    (hD : D.Addressable) (held : D.content? ⟨c.kind, i⟩ = some content)
    (hoperands : ∀ p ∈ [m, n], D.Derivable p)
    (rule : m.index < 2 ^ 63 → n.index < 2 ^ 63 →
      ∀ a b, Rule c.kind content [(m, .of m.kind a), (n, .of n.kind b)] (v a b))
    (hv : ∀ (R : Node → Value → Prop) a b, R m (.of m.kind a) → R n (.of n.kind b) →
      c.Describes R (v a b)) :
    D.Settles c i := by
  obtain ⟨hm, hn⟩ := forall_pair.mp hoperands
  have hm_lt := hm.index_lt hD
  have hn_lt := hn.index_lt hD
  obtain ⟨a, ha⟩ := hm
  obtain ⟨b, hb⟩ := hn
  exact settles_record held (rule hm_lt hn_lt a b) (forall_pair.mpr ⟨ha, hb⟩)
    fun R hR => hv R a b (forall_pair.mp hR).1 (forall_pair.mp hR).2

theorem settles_denoting {name : String} {m : Meaning}
    (hwritten : (Form.denoting name content).Written D i) (hkind : c.kind = .var)
    (rule : Rule .meaning content premises (.meaning m))
    (hps : ∀ p ∈ premises, Nonempty (D.Derivation p.1 p.2))
    (hv : ∀ R : Node → Value → Prop, (∀ p ∈ premises, R p.1 p.2) →
      ∀ number, 0 < number → c.Describes R (.var ⟨name, number, m⟩)) :
    D.Settles c i := by
  obtain ⟨j, hj, hsymbol, hmeaning⟩ := hwritten
  have hpos : 0 < reference j := reference_pos hmeaning hj
  have hsub : ∀ p ∈ [((⟨.meaning, j⟩ : Node), Value.meaning m)], ∃ t : D.Derivation p.1 p.2,
      ∀ limit depth, t.StaysWithin limit depth →
        ∀ q ∈ premises, D.DerivesWithin limit q.1 q.2 := by
    refine List.forall_mem_singleton.mpr
      ⟨.step premises hmeaning rule fun q hq => (hps q hq).some, fun limit depth h q hq => ?_⟩
    exact ⟨_, (h.2 q hq).mono (Nat.zero_le _)⟩
  rw [Settles, hkind]
  refine ⟨_, .step _ hsymbol (.denoting rfl rfl hpos (index?_reference rfl hj))
    fun p hp => (hsub p hp).choose, fun limit hlimit => hv _ ?_ _ hpos⟩
  have hmem := List.mem_singleton_self ((⟨.meaning, j⟩ : Node), Value.meaning m)
  exact (hsub _ hmem).choose_spec limit 1 (hlimit.2 _ hmem)

/-! ### One call -/

theorem Op.ofName?_name (op : Op) : Op.ofName? op.name = some op := by
  cases op <;> rfl

theorem toUInt64_ofNat_toNat (a : UInt64) : (Int64.ofNat a.toNat).toUInt64 = a :=
  UInt64.ofNat_toNat

theorem isBound_lowText (low : Option Int64) : IsBound "-oo" (Interval.lowText low) low := by
  cases low with
  | none => rfl
  | some v => exact Text.parseInt64?_toString v

theorem isBound_highText (high : Option Int64) : IsBound "oo" (Interval.highText high) high := by
  cases high with
  | none => rfl
  | some v => exact Text.parseInt64?_toString v

/-- Derivable operands have expressions to pair up with. -/
theorem exists_operands {operands : List Nat} (h : ∀ j ∈ operands, D.Derivable ⟨.expr, j⟩) :
    ∃ pairs : List (Nat × Expr), pairs.map (·.1) = operands ∧
      ∀ p ∈ pairs, Nonempty (D.Derivation ⟨.expr, p.1⟩ (.expr p.2)) := by
  induction operands with
  | nil => exact ⟨[], rfl, nofun⟩
  | cons j rest ih =>
    obtain ⟨⟨x, hx⟩, hrest⟩ := List.forall_mem_cons.mp h
    obtain ⟨pairs, rfl, hpairs⟩ := ih hrest
    exact ⟨(j, x) :: pairs, rfl, List.forall_mem_cons.mpr ⟨hx, hpairs⟩⟩

/-- Written operands are read back, one by one. -/
theorem map_index?_reference (tags : List String) {operands : List Nat}
    (h : ∀ j ∈ operands, j < 2 ^ 63) :
    (List.range (operands.map reference).length).map
      (Content.index? ⟨tags, operands.map reference⟩) = operands.map some := by
  refine List.ext_getElem (by simp) fun n _ hn => ?_
  have hn : n < operands.length := by simpa using hn
  simp only [List.getElem_map, List.getElem_range]
  refine index?_reference ?_ (h _ (List.getElem_mem hn))
  simp [hn]

section Kinds

variable (hD : D.Addressable) (hfits : c.Fits) (hwritten : c.form.Written D i)
  (hoperands : ∀ n ∈ c.operands, D.Derivable n)

include hD hfits hwritten hoperands in
theorem settles_var (hkind : c.kind = .var) : D.Settles c i := by
  cases c with
  | register name =>
    exact settles_denoting hwritten rfl (.register rfl rfl) nofun fun _ _ _ h => .register h
  | flag name =>
    exact settles_denoting hwritten rfl (.flag rfl rfl) nofun fun _ _ _ h => .flag h
  | temporary name =>
    exact settles_record hwritten (.unnumbered rfl rfl (by decide)) nofun fun _ _ => .temporary
  | memory name base size offset =>
    obtain ⟨hbase, hoffset⟩ := forall_pair.mp hoperands
    have ⟨b, hb⟩ := hbase
    have ⟨o, ho⟩ := hoffset
    refine settles_denoting hwritten rfl
      (.memory rfl (index?_reference rfl (hbase.index_lt hD)) (index?_reference rfl hfits)
        (index?_reference rfl (hoffset.index_lt hD)))
      (forall_pair.mpr ⟨hb, ho⟩) fun R hR _ h => ?_
    exact .memory h (forall_pair.mp hR).1 (forall_pair.mp hR).2
  | fixed name value =>
    have hvalue := List.forall_mem_singleton.mp hoperands
    have ⟨f, hf⟩ := hvalue
    exact settles_denoting hwritten rfl (.fixed rfl (index?_reference rfl (hvalue.index_lt hD)))
      (List.forall_mem_singleton.mpr hf)
      fun _ hR _ h => .fixed h (hR _ (List.mem_singleton_self _))
  | _ => cases hkind

include hD hwritten hoperands in
theorem settles_base (hkind : c.kind = .base) : D.Settles c i := by
  cases c with
  | localFrame => exact settles_record hwritten (.localFrame rfl) nofun fun _ _ => .localFrame
  | globalBase => exact settles_record hwritten (.globals rfl) nofun fun _ _ => .globalBase
  | variableBase j =>
    exact settles_one hD hwritten (List.forall_mem_singleton.mp hoperands)
      (fun hj _ => .pointer rfl (index?_reference rfl hj)) fun _ _ => .variableBase
  | unknownBase description =>
    exact settles_record hwritten (.unknownBase rfl) nofun fun _ _ => .unknownBase
  | _ => cases hkind

include hD hfits hwritten hoperands in
theorem settles_offset (hkind : c.kind = .offset) : D.Settles c i := by
  cases c with
  | noOffset => exact settles_record hwritten (.noOffset rfl) nofun fun _ _ => .noOffset
  | constOffset value sub =>
    exact settles_one hD hwritten (List.forall_mem_singleton.mp hoperands)
      (fun hsub _ =>
        .constOffset rfl (Text.parseInt64?_toString value) (index?_reference rfl hsub))
      fun _ _ => .constOffset
  | fieldOffset name key sub =>
    exact settles_one hD hwritten (List.forall_mem_singleton.mp hoperands)
      (fun hsub _ =>
        .fieldOffset rfl rfl (index?_reference rfl hfits) (index?_reference rfl hsub))
      fun _ _ => .fieldOffset
  | indexOffset j sub =>
    exact settles_two hD hwritten hoperands
      (fun hj hsub _ _ =>
        .indexOffset rfl (index?_reference rfl hj) (index?_reference rfl hsub))
      fun _ _ _ => .indexOffset
  | indexVarOffset j elementSize sub =>
    exact settles_two hD hwritten hoperands
      (fun hj hsub _ _ =>
        .indexVarOffset rfl (index?_reference rfl hj) (index?_reference rfl hfits)
          (index?_reference rfl hsub))
      fun _ _ _ => .indexVarOffset
  | _ => cases hkind

include hD hfits hwritten hoperands in
theorem settles_fixedValue (hkind : c.kind = .fixedValue) : D.Settles c i := by
  cases c with
  | initialRegister name =>
    exact settles_record hwritten (.initialRegister rfl rfl) nofun fun _ _ => .initialRegister
  | initialMemory j =>
    exact settles_one hD hwritten (List.forall_mem_singleton.mp hoperands)
      (fun hj _ => .initialMemory rfl (index?_reference rfl hj)) fun _ _ => .initialMemory
  | returnValue callSite callee =>
    have hcallee : (["fr", Text.hex callSite.toNat] ++ callee.toList)[2]? = callee := by
      cases callee <;> rfl
    refine settles_record hwritten (.returnValue rfl (Text.parseInt64?_hex hfits)) nofun
      fun _ _ => ?_
    rw [toUInt64_ofNat_toNat, hcallee]
    exact .returnValue
  | symbolic name j =>
    exact settles_one hD hwritten (List.forall_mem_singleton.mp hoperands)
      (fun hj _ => .symbolic rfl rfl (index?_reference rfl hj)) fun _ _ => .symbolic
  | _ => cases hkind

include hD hfits hwritten hoperands in
theorem settles_expr (hkind : c.kind = .expr) : D.Settles c i := by
  cases c with
  | varExpr j =>
    exact settles_one hD hwritten (List.forall_mem_singleton.mp hoperands)
      (fun hj _ => .varExpr rfl (index?_reference rfl hj)) fun _ _ => .varExpr
  | intExpr value =>
    exact settles_record hwritten (.narrowInt rfl (Text.parseInt64?_toString value) rfl) nofun
      fun _ _ => .intExpr
  | addressExpr a =>
    refine settles_record hwritten (.address rfl (Text.parseInt64?_hex hfits)) nofun
      fun _ _ => ?_
    rw [toUInt64_ofNat_toNat]
    exact .addressExpr
  | applyExpr op operands =>
    have hoperands := List.forall_mem_map.mp hoperands
    have hlt : ∀ j ∈ operands, j < 2 ^ 63 := fun j hj => (hoperands j hj).index_lt hD
    obtain ⟨pairs, rfl, hpairs⟩ := exists_operands hoperands
    have hargs := (map_index?_reference ["x", op.name] hlt).trans List.map_map
    refine settles_record hwritten (.apply rfl rfl (Op.ofName?_name op) hargs)
      (List.forall_mem_map.mpr hpairs) fun R hR => .applyExpr ?_
    rw [List.forall₂_map_left_iff, List.forall₂_map_right_iff, List.forall₂_same]
    exact List.forall_mem_map.mp hR
  | _ => cases hkind

end Kinds

/-- **The step.** A call whose records are there and whose operands have derivations settles its
index. -/
theorem settles (hD : D.Addressable) (hfits : c.Fits) (hwritten : c.form.Written D i)
    (hoperands : ∀ n ∈ c.operands, D.Derivable n) : D.Settles c i := by
  cases hkind : c.kind with
  | var => exact settles_var hD hfits hwritten hoperands hkind
  | meaning => cases c <;> cases hkind
  | base => exact settles_base hD hwritten hoperands hkind
  | offset => exact settles_offset hD hfits hwritten hoperands hkind
  | fixedValue => exact settles_fixedValue hD hfits hwritten hoperands hkind
  | expr => exact settles_expr hD hfits hwritten hoperands hkind
  | interval =>
    cases c with
    | interval low high =>
      exact settles_record hwritten
        (.interval rfl rfl (isBound_lowText low) (isBound_highText high)) nofun fun _ _ => .interval
    | _ => cases hkind

end

/-! ### Sessions -/

variable {history : List (Call × Nat)} {d D : Dictionary}

/-- Every index that a session gave is settled, in every larger dictionary. -/
theorem Minted.settled (h : Minted history d) (hext : d.Extends D) (hD : D.Addressable) :
    ∀ p ∈ history, D.Settles p.1 p.2 := by
  induction h with
  | nil => nofun
  | @call history d d' c i _ hfits hoperands hrun ih =>
    obtain ⟨rfl, rfl⟩ : (c.form.mint d).1 = i ∧ (c.form.mint d).2 = d' := by
      rw [← Call.mint_eq, hrun]
      exact ⟨rfl, rfl⟩
    have ih := ih ((c.form.extends d).trans hext)
    refine List.forall_mem_append.mpr ⟨ih, List.forall_mem_singleton.mpr ?_⟩
    refine settles hD hfits (c.form.written hD hext) fun n hn => ?_
    obtain ⟨earlier, hearlier, hkind⟩ := hoperands n hn
    obtain ⟨v, t, -⟩ := ih _ hearlier
    have hnode : (⟨earlier.kind, n.index⟩ : Node) = n := by rw [hkind]
    exact hnode ▸ t.derivable

/-- **Minting and decoding are inverse.** After a session of calls, an index that one of them gave
is decoded to the value that the call describes, built from what its operands are decoded to, if no
chain of references from it is longer than decoding permits. -/
theorem minted_decode (hminted : Minted history d) (hd : d.Addressable) {c : Call} {i : Nat}
    (hcall : (c, i) ∈ history)
    (hchains : ∀ chain, d.IsChain ⟨c.kind, i⟩ chain → chain.length ≤ 256) :
    ∃ v, d.decode ⟨c.kind, i⟩ = .ok v ∧ c.Describes (fun n w => d.decode n = .ok w) v := by
  obtain ⟨v, t, hv⟩ := hminted.settled (.refl d) hd _ hcall
  have ht : t.StaysWithin maxDepth 0 := by
    refine t.staysWithin_of_chains fun chain hchain => ?_
    rw [Nat.zero_add]
    exact hchains chain hchain
  refine ⟨v, decode_eq_ok_iff.mpr ⟨t, ht⟩, ?_⟩
  simp only [decode_eq_ok_iff]
  exact hv maxDepth ht

def mintAll (calls : List Call) : Dictionary :=
  calls.foldl (fun d c => (c.mint d).2) {}

/-- The sum of a register and an integer that is cut to 32 bits is decoded. -/
theorem minted_decode_of_sum :
    let d := mintAll
      [.register "R0", .varExpr 1, .intExpr 4294967301, .applyExpr .plus [1, 2]]
    let history : List (Call × Nat) :=
      [(.register "R0", 1), (.varExpr 1, 1), (.intExpr 4294967301, 2), (.applyExpr .plus [1, 2], 3)]
    let c : Call := .applyExpr .plus [1, 2]
    Minted history d ∧ d.Addressable ∧ (c, 3) ∈ history ∧
      (∀ chain, d.IsChain ⟨c.kind, 3⟩ chain → chain.length ≤ 256) ∧
      ∃ v, d.decode ⟨c.kind, 3⟩ = .ok v ∧ c.Describes (fun n w => d.decode n = .ok w) v := by
  intro d history c
  have hregister : Minted [(.register "R0", 1)] (mintAll [.register "R0"]) :=
    .call .nil trivial nofun (Prod.ext (by decide +kernel) rfl)
  have hvar : Minted [(.register "R0", 1), (.varExpr 1, 1)]
      (mintAll [.register "R0", .varExpr 1]) :=
    hregister.call trivial (List.forall_mem_singleton.mpr ⟨.register "R0", by simp, rfl⟩)
      (Prod.ext (by decide +kernel) rfl)
  have hint : Minted [(.register "R0", 1), (.varExpr 1, 1), (.intExpr 4294967301, 2)]
      (mintAll [.register "R0", .varExpr 1, .intExpr 4294967301]) :=
    hvar.call trivial nofun (Prod.ext (by decide +kernel) rfl)
  have hminted : Minted history d :=
    hint.call trivial (forall_pair.mpr ⟨⟨.varExpr 1, by simp, rfl⟩,
      ⟨.intExpr 4294967301, by simp, rfl⟩⟩) (Prod.ext (by decide +kernel) rfl)
  have hd : d.Addressable := by
    intro name
    cases name <;> decide +kernel
  have hcall : (c, 3) ∈ history := by simp [history, c]
  have hdecoded : d.decode ⟨c.kind, 3⟩ = .ok (.expr (.apply .plus
      [.var ⟨"R0", 1, .register "R0"⟩, .const (.int 5 .w32)])) := by
    with_unfolding_all rfl
  have hchains (chain) (h : d.IsChain ⟨c.kind, 3⟩ chain) : chain.length ≤ 256 :=
    length_le_of_decode hdecoded h
  exact ⟨hminted, hd, hcall, hchains, minted_decode hminted hd hcall hchains⟩

end Dictionary

end FactLift
