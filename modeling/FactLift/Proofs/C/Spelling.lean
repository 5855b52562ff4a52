import FactLift.C.Print

/-! How expressions are spelled, character by character.

Operands stand side by side with a spaced sign between them, or behind a sign without a space. A
name and a number are words: they end where the first character comes that cannot be part of one. -/

namespace FactLift

/-! ### Words -/

/-- The characters of names and numbers. -/
def Text.isWordChar (c : Char) : Bool :=
  c.isAlphanum || c == '_'

/-- A name that may stand for a variable: letters, digits and underscores, and no digit first. -/
def Text.isIdentifier (name : String) : Bool :=
  match name.toList with
  | [] => false
  | c :: rest => (c.isAlpha || c == '_') && rest.all isWordChar

/-- A text is cut in one way only where the characters of one kind end. -/
theorem Text.cut_at_end_inj {p : Char → Bool} {xs ys xs' ys' : List Char} (hxs : ∀ c ∈ xs, p c)
    (hxs' : ∀ c ∈ xs', p c) (hys : ∀ c ∈ ys.head?, p c = false)
    (hys' : ∀ c ∈ ys'.head?, p c = false) (h : xs ++ ys = xs' ++ ys') : xs = xs' ∧ ys = ys' := by
  have htaken {xs ys : List Char} (hxs : ∀ c ∈ xs, p c) (hys : ∀ c ∈ ys.head?, p c = false) :
      (xs ++ ys).takeWhile p = xs := by
    rw [List.takeWhile_append_of_pos hxs]
    cases ys with
    | nil => simp
    | cons c ys => simp [hys c rfl]
  have hxs : xs = xs' := by rw [← htaken hxs hys, h, htaken hxs' hys']
  subst hxs
  exact ⟨rfl, List.append_cancel_left h⟩

theorem Text.isWordChar_of_isDigit {c : Char} (h : c.isDigit) : isWordChar c := by
  simp [isWordChar, Char.isAlphanum, h]

theorem Text.isDigit_eq_false_of_isAlpha {c : Char} (h : c.isAlpha) : c.isDigit = false := by
  have hcode : 'A'.toNat ≤ c.toNat := by
    rcases Bool.or_eq_true_iff.mp h with hupper | hlower
    · have hbounds : 'A'.val ≤ c.val ∧ c.val ≤ 'Z'.val := of_decide_eq_true hupper
      exact UInt32.le_iff_toNat_le.mp hbounds.1
    · have hbound : 'a'.val ≤ c.val := of_decide_eq_true (Bool.and_eq_true_iff.mp hlower).1
      exact Nat.le_trans (by decide) (UInt32.le_iff_toNat_le.mp hbound)
  rw [Bool.eq_false_iff]
  intro hdigit
  have hbounds := Char.isDigit_iff_toNat.mp hdigit
  exact absurd (Nat.le_trans hcode hbounds.2) (by decide)

/-- An identifier is a word that does not start like a number. -/
theorem Text.isIdentifier_word {name : String} (h : isIdentifier name) :
    (∀ c ∈ name.toList, isWordChar c) ∧ ∃ c rest, name.toList = c :: rest ∧ c.isDigit = false := by
  unfold isIdentifier at h
  split at h
  · contradiction
  next c rest hname =>
    obtain ⟨hfirst, hrest⟩ := Bool.and_eq_true_iff.mp h
    rw [hname]
    refine ⟨List.forall_mem_cons.mpr ⟨?_, List.all_eq_true.mp hrest⟩, c, rest, rfl, ?_⟩
    · rcases Bool.or_eq_true_iff.mp hfirst with h | h <;> simp [isWordChar, Char.isAlphanum, h]
    · rcases Bool.or_eq_true_iff.mp hfirst with h | h
      · exact isDigit_eq_false_of_isAlpha h
      · rw [beq_iff_eq.mp h]
        rfl

/-- A name does not start with a character that words do not have. -/
theorem Text.identifier_append_ne {name : String} (h : isIdentifier name) {c : Char}
    (hc : isWordChar c = false) (rest tail : List Char) : name.toList ++ rest ≠ c :: tail := by
  obtain ⟨hword, c', name', hname, -⟩ := isIdentifier_word h
  intro htext
  rw [hname, List.cons_append] at htext
  have hc' := hword c' (by simp [hname])
  rw [(List.cons.inj htext).1, hc] at hc'
  contradiction

/-- The decimal text of a number without a sign is a word that starts with a digit. -/
theorem Text.toString_word {v : Int} (h : 0 ≤ v) :
    (∀ c ∈ (toString v).toList, isWordChar c) ∧
      ∃ c rest, (toString v).toList = c :: rest ∧ c.isDigit := by
  obtain ⟨n, rfl⟩ := Int.eq_ofNat_of_zero_le h
  have htext : (toString (n : Int)).toList = Nat.toDigits 10 n := Nat.toList_repr
  have hdigit {c : Char} (hc : c ∈ Nat.toDigits 10 n) : c.isDigit :=
    Nat.isDigit_of_mem_toDigits (by decide) (by decide) hc
  rw [htext]
  refine ⟨fun c hc => isWordChar_of_isDigit (hdigit hc), ?_⟩
  obtain ⟨c, rest, hdigits⟩ := List.exists_cons_of_ne_nil (Nat.toDigits_ne_nil (n := n) (b := 10))
  exact ⟨c, rest, hdigits, hdigit (hdigits ▸ List.mem_cons_self)⟩

namespace C

/-! ### Operands -/

/-- The characters of an operand, in parentheses if it binds looser than `least`. -/
def Expr.spelling (e : Expr) (least : Nat) : List Char :=
  (e.operand least).toList

/-- A sign between two operands. -/
def spaced (sign : String) : List Char :=
  ' ' :: (sign.toList ++ [' '])

variable {e : Expr} {least : Nat}

theorem spelling_of_le (h : least ≤ e.precedence) : e.spelling least = e.text.toList := by
  rw [Expr.spelling, Expr.operand, parenthesized, if_neg (Nat.not_lt.mpr h)]

theorem spelling_of_lt (h : e.precedence < least) :
    e.spelling least = '(' :: (e.text.toList ++ [')']) := by
  rw [Expr.spelling, Expr.operand, parenthesized, if_pos h]
  simp

theorem toList_text_unary (op : UnOp) (e : Expr) :
    (Expr.unary op e).text.toList = op.symbol.toList ++ e.spelling 15 := by
  rw [Expr.text, String.toList_append]
  rfl

theorem spelling_unary (op : UnOp) (e : Expr) :
    (Expr.unary op e).spelling 15 = op.symbol.toList ++ e.spelling 15 := by
  rw [spelling_of_le (by simp [Expr.precedence]), toList_text_unary]

theorem toList_text_binary (op : BinOp) (a b : Expr) :
    (Expr.binary op a b).text.toList =
      a.spelling op.precedence ++ (spaced op.symbol ++ b.spelling (op.precedence + 1)) := by
  rw [Expr.text]
  simp [Expr.spelling, Expr.operand, spaced]

theorem toList_text_conditional (c a b : Expr) :
    (Expr.conditional c a b).text.toList =
      c.spelling 4 ++ (spaced "?" ++ (a.spelling 4 ++ (spaced ":" ++ b.spelling 3))) := by
  rw [Expr.text]
  simp [Expr.spelling, Expr.operand, spaced]

theorem toList_text_cast (t : Ty) (e : Expr) :
    (Expr.cast t e).text.toList = '(' :: (t.text.toList ++ ')' :: e.spelling 15) := by
  rw [Expr.text]
  simp [Expr.spelling, Expr.operand, Ty.text]

theorem toList_text_int (v : Int64) :
    (Expr.int v .int).text.toList = (toString v.toInt).toList := by
  simp [Expr.text, intText, IntKind.isSigned, IntKind.suffix]

theorem text_ofSymbol (s : Symbol) : (Expr.ofSymbol s).text = s.name := by
  simp [Expr.ofSymbol, Expr.text, Lval.text, Offset.text]

/-! ### Signs -/

theorem symbol_inj {op op' : BinOp} (h : op.symbol = op'.symbol) : op = op' := by
  have hfind (op : BinOp) : BinOp.all.find? (fun o => o.symbol == op.symbol) = some op := by
    cases op <;> decide
  have hfound := hfind op
  rw [h, hfind op'] at hfound
  exact (Option.some.inj hfound).symm

theorem spaced_inj {sign sign' : String} {rest rest' : List Char} (hsign : ' ' ∉ sign.toList)
    (hsign' : ' ' ∉ sign'.toList) (h : spaced sign ++ rest = spaced sign' ++ rest') :
    sign = sign' ∧ rest = rest' := by
  have hne {sign : String} (hsign : ' ' ∉ sign.toList) : ∀ c ∈ sign.toList, c != ' ' := by
    intro c hc
    simp only [bne_iff_ne]
    rintro rfl
    exact hsign hc
  have hcut : sign.toList ++ ' ' :: rest = sign'.toList ++ ' ' :: rest' := by
    simpa [spaced] using h
  obtain ⟨hsigns, hrests⟩ := Text.cut_at_end_inj (hne hsign) (hne hsign') (by simp) (by simp) hcut
  exact ⟨String.toList_injective hsigns, (List.cons.inj hrests).2⟩

theorem space_notMem_symbol (op : BinOp) : ' ' ∉ op.symbol.toList := by
  cases op <;> decide

end C

end FactLift
