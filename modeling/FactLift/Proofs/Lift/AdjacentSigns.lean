import FactLift.Proofs.C.Placeholder
import FactLift.Proofs.C.Spelling
import FactLift.Proofs.Lift.RegisterForm
import FactLift.Proofs.Sym.NormalForm
import Mathlib.Data.List.Chain

/-! Minus signs side by side.

Two minus signs without a space between them are another operator of C. Binary operators stand
between spaces and parentheses keep their contents apart, so two signs can only meet where a
negation is printed in front of an operand that starts with one. Simplifying leaves no negated
constant, so that operand is a negation (`liftExpr_adjacent_signs`). -/

namespace FactLift

open C

namespace Text

/-- No two minus signs stand side by side. -/
def SignsApart (cs : List Char) : Prop :=
  cs.IsChain fun c d => ¬ (c = '-' ∧ d = '-')

variable {c : Char} {cs ds : List Char}

theorem signsApart_iff : SignsApart cs ↔ ¬ ['-', '-'] <:+: cs := by
  rw [SignsApart, List.isChain_iff_forall_rel_of_append_cons_cons]
  constructor
  · rintro h ⟨before, after, rfl⟩
    exact @h '-' '-' before after (by simp) ⟨rfl, rfl⟩
  · rintro h _ _ before after rfl ⟨rfl, rfl⟩
    exact h ⟨before, after, by simp⟩

theorem signsApart_of_notMem (h : '-' ∉ cs) : SignsApart cs := by
  rw [signsApart_iff]
  intro hsigns
  exact h (hsigns.subset (by simp))

/-- Another character keeps what stands on its two sides apart. -/
theorem signsApart_append_cons (hc : c ≠ '-') :
    SignsApart (cs ++ c :: ds) ↔ SignsApart cs ∧ SignsApart ds := by
  simp [SignsApart, List.isChain_append, List.isChain_cons, hc]

theorem signsApart_cons (hc : c ≠ '-') : SignsApart (c :: ds) ↔ SignsApart ds := by
  simp [SignsApart, List.isChain_cons, hc]

theorem signsApart_sign : SignsApart ('-' :: cs) ↔ cs.head? ≠ some '-' ∧ SignsApart cs := by
  rw [SignsApart, List.isChain_cons]
  refine and_congr_left' ⟨fun h hhead => h '-' hhead ⟨rfl, rfl⟩, fun h c hc hsigns => h ?_⟩
  rw [← hsigns.2]
  exact hc

/-- Words have no minus sign. -/
theorem signsApart_of_isWordChar (h : ∀ c ∈ cs, isWordChar c) : SignsApart cs :=
  signsApart_of_notMem fun hsign => absurd (h '-' hsign) (by decide)

/-- A number has at most one minus sign, in front. -/
theorem signsApart_toString (v : Int) : SignsApart (toString v).toList := by
  cases v with
  | ofNat n => exact signsApart_of_isWordChar (toString_word (Int.natCast_nonneg n)).1
  | negSucc n =>
    have hdigits := toString_word (Int.natCast_nonneg (n + 1))
    obtain ⟨hword, c, rest, hfirst, hdigit⟩ := hdigits
    have htext : (toString (Int.negSucc n)).toList =
        '-' :: (toString ((n + 1 : Nat) : Int)).toList :=
      String.toList_append
    rw [htext, signsApart_sign]
    refine ⟨?_, signsApart_of_isWordChar hword⟩
    rw [hfirst]
    rintro ⟨⟩
    contradiction

end Text

namespace C

open Text

/-- Parentheses keep their contents apart from what stands outside. -/
theorem signsApart_spelling (e : Expr) (least : Nat) :
    SignsApart (e.spelling least) ↔ SignsApart e.text.toList := by
  by_cases h : least ≤ e.precedence
  · rw [spelling_of_le h]
  · rw [spelling_of_lt (Nat.lt_of_not_le h), signsApart_cons (by decide),
      signsApart_append_cons (by decide)]
    exact and_iff_left (signsApart_of_notMem (by simp))

theorem signsApart_binary (op : BinOp) (a b : Expr) :
    SignsApart (Expr.binary op a b).text.toList ↔
      SignsApart a.text.toList ∧ SignsApart b.text.toList := by
  have hsymbol : SignsApart op.symbol.toList := by
    rw [signsApart_iff]
    cases op <;> decide
  rw [toList_text_binary, spaced, List.cons_append, signsApart_append_cons (by decide),
    List.append_assoc, List.cons_append, List.nil_append, signsApart_append_cons (by decide),
    signsApart_spelling, signsApart_spelling]
  exact and_congr_right' (and_iff_right hsymbol)

theorem signsApart_cast (signed : Bool) (e : Expr) :
    SignsApart (Expr.cast (.ofSign signed) e).text.toList ↔ SignsApart e.text.toList := by
  rw [toList_text_cast, signsApart_cons (by decide), signsApart_append_cons (by decide),
    signsApart_spelling]
  refine and_iff_right (signsApart_of_notMem ?_)
  cases signed <;> simp [Ty.text, Ty.declare, declared, IntKind.name]

theorem signsApart_int (v : Int64) : SignsApart (Expr.int v .int).text.toList := by
  rw [toList_text_int]
  exact signsApart_toString v.toInt

theorem signsApart_ofSymbol {s : Symbol} (h : isIdentifier s.name) :
    SignsApart (Expr.ofSymbol s).text.toList := by
  rw [text_ofSymbol]
  exact signsApart_of_isWordChar (isIdentifier_word h).1

/-- Only a negation puts a minus sign in front of its operand. -/
theorem signsApart_unary (op : UnOp) (e : Expr) :
    SignsApart (Expr.unary op e).text.toList ↔
      (op = .neg → (e.spelling 15).head? ≠ some '-') ∧ SignsApart e.text.toList := by
  rw [toList_text_unary]
  cases op with
  | neg =>
    have hsymbol : UnOp.neg.symbol.toList = ['-'] := rfl
    rw [hsymbol, List.singleton_append, signsApart_sign, signsApart_spelling]
    simp
  | bnot =>
    have hsymbol : UnOp.bnot.symbol.toList = ['~'] := rfl
    rw [hsymbol, List.singleton_append, signsApart_cons (by decide), signsApart_spelling]
    simp
  | lnot =>
    have hsymbol : UnOp.lnot.symbol.toList = ['!'] := rfl
    rw [hsymbol, List.singleton_append, signsApart_cons (by decide), signsApart_spelling]
    simp

end C

/-! ### Negated negations -/

namespace Sym

def Expr.isNeg : Expr → Bool
  | .apply .neg [_] => true
  | _ => false

mutual

/-- Whether a negation stands directly under a negation, anywhere in an expression. -/
def Expr.negatesNeg : Expr → Bool
  | .const _ | .var _ => false
  | .apply op args => op == .neg && args.any Expr.isNeg || anyNegatesNeg args

def anyNegatesNeg : List Expr → Bool
  | [] => false
  | a :: rest => a.negatesNeg || anyNegatesNeg rest

end

variable {op : Op} {args : List Expr} {a b x : Expr}

theorem negatesNeg_one :
    (Expr.apply op [a]).negatesNeg = ((op == .neg && a.isNeg) || a.negatesNeg) := by
  simp [Expr.negatesNeg, anyNegatesNeg]

theorem negatesNeg_two (hop : op ≠ .neg) :
    (Expr.apply op [a, b]).negatesNeg = (a.negatesNeg || b.negatesNeg) := by
  simp [Expr.negatesNeg, anyNegatesNeg, hop]

/-- The names of the registers in an expression may stand for variables. -/
def NamesRegisters (x : Expr) : Prop :=
  ∀ v ∈ x.vars, ∀ r, v.register? = some r → Text.isIdentifier r

theorem NamesRegisters.register {name r : String} {number : Int64}
    (h : NamesRegisters (.var ⟨name, number, .register r⟩)) : Text.isIdentifier r :=
  h ⟨name, number, .register r⟩ (by simp [Expr.vars]) r rfl

theorem NamesRegisters.operand (h : NamesRegisters (.apply op args)) (ha : a ∈ args) :
    NamesRegisters a := by
  intro v hv
  refine h v ?_
  rw [Expr.vars, varsOf_eq_flatMap]
  exact List.mem_flatMap.mpr ⟨a, ha, hv⟩

theorem Expr.IsReduced.operand (h : (Expr.apply op args).IsReduced) (ha : a ∈ args) :
    a.IsReduced := by
  cases h with
  | apply hargs => exact hargs a ha

/-- A negated constant would have been folded. -/
theorem Expr.IsReduced.ne_const (h : (Expr.apply .neg [a]).IsReduced) (c : Constant) :
    a ≠ .const c := by
  rintro rfl
  cases h with
  | apply _ hfold => simp [Expr.fold, Expr.foldAll, foldOp, Op.isUnary, foldUnary] at hfold

end Sym

namespace TreeOf

variable {x : Sym.Expr} {e : Expr}

/-- Besides negative numbers, only negations start with a minus sign. -/
theorem head_spelling (h : TreeOf x e) (hnames : Sym.NamesRegisters x) (hresolved : e.reasons = [])
    (hconst : ∀ c, x ≠ .const c) : (e.spelling 15).head? = some '-' ↔ x.isNeg := by
  have hbinary (o : BinOp) (a b : Expr) : ((Expr.binary o a b).spelling 15).head? ≠ some '-' := by
    have hprecedence : (Expr.binary o a b).precedence < 15 := by
      cases o <;> simp [Expr.precedence, BinOp.precedence]
    simp [spelling_of_lt hprecedence]
  cases h with
  | int v => exact absurd rfl (hconst _)
  | @register name number r s hname htype =>
    have hs : Text.isIdentifier s.name := hname ▸ hnames.register
    obtain ⟨hword, c, rest, hfirst, -⟩ := Text.isIdentifier_word hs
    have hc : c ≠ '-' := by
      rintro rfl
      exact absurd (hword '-' (by simp [hfirst])) (by decide)
    have hspelling : (Expr.ofSymbol s).spelling 15 = c :: rest := by
      rw [spelling_of_le (by simp [Expr.ofSymbol, Expr.precedence]), text_ofSymbol, hfirst]
    simp [hspelling, hc, Sym.Expr.isNeg]
  | @masked op a e mask hmask ha =>
    cases op <;> cases hmask <;> simp [hbinary, Sym.Expr.isNeg]
  | @unary op o a e ho ha =>
    rw [spelling_unary]
    cases op <;> cases ho <;> simp [UnOp.symbol, Sym.Expr.isNeg]
  | shifted | byte | binary => simp [byteAt, hbinary, Sym.Expr.isNeg]
  | unresolved reason h => simp [Expr.reasons] at hresolved

/-- The signs in the text of a tree stand apart exactly if no negation is negated. -/
theorem signsApart (h : TreeOf x e) (hnames : Sym.NamesRegisters x) (hreduced : x.IsReduced)
    (hresolved : e.reasons = []) :
    Text.SignsApart e.text.toList ↔ x.negatesNeg = false := by
  induction h with
  | int v => simp [signsApart_int, Sym.Expr.negatesNeg]
  | register hname htype =>
    simp [signsApart_ofSymbol (hname ▸ hnames.register), Sym.Expr.negatesNeg]
  | @masked op a e mask hmask ha ih =>
    have hop : op ≠ .neg := by
      rintro rfl
      contradiction
    rw [Expr.reasons] at hresolved
    have hoperand := ih (hnames.operand (by simp)) (hreduced.operand (by simp))
      (List.append_eq_nil_iff.mp hresolved).1
    rw [signsApart_binary, and_iff_left (signsApart_int mask), hoperand, Sym.negatesNeg_one]
    simp [hop]
  | @unary op o a e ho ha ih =>
    rw [Expr.reasons] at hresolved
    have hoperand := ih (hnames.operand (by simp)) (hreduced.operand (by simp)) hresolved
    rw [signsApart_unary, hoperand, Sym.negatesNeg_one]
    have hneg : op = .neg ↔ o = .neg := by cases op <;> cases ho <;> simp
    by_cases hop : op = .neg
    · obtain rfl := hop
      have hhead := ha.head_spelling (hnames.operand (by simp)) hresolved hreduced.ne_const
      simp [hneg.mp rfl, hhead]
    · simp [hop, ← hneg]
  | @shifted op signed a b e f hshift ha hb iha ihb =>
    have hop : op ≠ .neg := by
      rintro rfl
      contradiction
    simp only [Expr.reasons, List.append_eq_nil_iff] at hresolved
    have hleft := iha (hnames.operand (by simp)) (hreduced.operand (by simp)) hresolved.1
    have hright := ihb (hnames.operand (by simp)) (hreduced.operand (by simp)) hresolved.2
    rw [signsApart_binary, signsApart_cast, hleft, hright, Sym.negatesNeg_two hop,
      Bool.or_eq_false_iff]
  | @byte a b f bits hbits hb ih =>
    simp only [byteAt, Expr.reasons, List.append_nil] at hresolved
    have hoperand := ih (hnames.operand (by simp)) (hreduced.operand (by simp)) hresolved
    have ha : a.negatesNeg = false := by
      obtain ⟨n, hn, -⟩ := Option.bind_eq_some_iff.mp hbits
      obtain ⟨c, rfl⟩ := Sym.eq_const_of_int? hn
      rw [Sym.Expr.negatesNeg]
    rw [byteAt, signsApart_binary, signsApart_binary, and_iff_left (signsApart_int _),
      and_iff_left (signsApart_int _), hoperand, Sym.negatesNeg_two (by decide), ha, Bool.false_or]
  | @binary op o a b e f ho hshift ha hb iha ihb =>
    have hop : op ≠ .neg := by
      rintro rfl
      contradiction
    simp only [Expr.reasons, List.append_eq_nil_iff] at hresolved
    have hleft := iha (hnames.operand (by simp)) (hreduced.operand (by simp)) hresolved.1
    have hright := ihb (hnames.operand (by simp)) (hreduced.operand (by simp)) hresolved.2
    rw [signsApart_binary, hleft, hright, Sym.negatesNeg_two hop, Bool.or_eq_false_iff]
  | unresolved reason h => simp [Expr.reasons] at hresolved

end TreeOf

namespace LiftM

/-- **Two minus signs stand side by side in the text of an expression over registers exactly if its
simplified form negates a negation.** -/
theorem liftExpr_adjacent_signs (x : Sym.Expr) (hx : x.OfRegisters) (hnames : Sym.NamesRegisters x)
    (site : Site) (s : Session) (hs : s.locals.IsEmpty)
    (hresolved : (liftExpr x site s).1.reasons = []) :
    ['-', '-'] <:+: (liftExpr x site s).1.text.toList ↔ x.simplify.negatesNeg = true := by
  have hsimplified : Sym.NamesRegisters x.simplify := by
    intro v hv
    exact hnames v (Sym.vars_simplify x ▸ hv)
  have h := (liftExpr_treeOf hx site hs).signsApart hsimplified (Sym.isReduced_simplify x) hresolved
  rw [← not_iff_not, ← Text.signsApart_iff, h, Bool.not_eq_true]

/-- A difference of a register and a negated sum has no two signs side by side: the sum stands in
parentheses, and what is subtracted behind a space. -/
theorem liftExpr_adjacent_signs_of_difference :
    let r : Sym.Expr := .var ⟨"R0", 1, .register "R0"⟩
    let x : Sym.Expr := .apply .minus [r, .apply .neg [.apply .plus [.apply .neg [r], r]]]
    x.OfRegisters ∧ Sym.NamesRegisters x ∧
      (liftExpr x ⟨{}, 0, []⟩ (.start {} "f")).1.reasons = [] ∧
      ¬ ['-', '-'] <:+: (liftExpr x ⟨{}, 0, []⟩ (.start {} "f")).1.text.toList := by
  intro r x
  have hr : r.OfRegisters := .var ⟨rfl, rfl⟩
  have hx : x.OfRegisters := hr.two (hr.one.two hr).one
  have hnames : Sym.NamesRegisters x := by
    simp +decide [Sym.NamesRegisters, x, r, Sym.Expr.vars, Sym.Expr.varsOf, Sym.Variable.register?]
  have hresolved : (liftExpr x ⟨{}, 0, []⟩ (.start {} "f")).1.reasons = [] := by decide
  refine ⟨hx, hnames, hresolved, ?_⟩
  rw [liftExpr_adjacent_signs x hx hnames _ _ ⟨rfl, rfl, rfl⟩ hresolved]
  decide

/-- A register negated twice is printed with both signs: `--R0`. -/
theorem liftExpr_joins_signs :
    let x : Sym.Expr := .apply .neg [.apply .neg [.var ⟨"R0", 1, .register "R0"⟩]]
    x.OfRegisters ∧ Sym.NamesRegisters x ∧
      (liftExpr x ⟨{}, 0, []⟩ (.start {} "f")).1.reasons = [] ∧
      ['-', '-'] <:+: (liftExpr x ⟨{}, 0, []⟩ (.start {} "f")).1.text.toList := by
  intro x
  have hr : (Sym.Expr.var ⟨"R0", 1, .register "R0"⟩).OfRegisters := .var ⟨rfl, rfl⟩
  have hx : x.OfRegisters := hr.one.one
  have hnames : Sym.NamesRegisters x := by
    simp +decide [Sym.NamesRegisters, x, Sym.Expr.vars, Sym.Expr.varsOf, Sym.Variable.register?]
  exact ⟨hx, hnames, by decide, by decide⟩

end LiftM

end FactLift
