import FactLift.Proofs.C.Spelling
import FactLift.Proofs.Text.Integer

/-! Printed expressions read in one way.

Plain expressions are made of numbers, variables, elements, dereferences, addresses and operators.
The text of one, behind which no stronger operator follows, determines it up to the descriptions of
its variables: `byName_eq_of_text_eq`. An expression is read as the printer brackets it. Behind
its first operand, which parentheses or a prefix sign hold together, come links of an operator and
an operand each, every operator as strong as the next or stronger, and around them at most one
conditional. -/

namespace FactLift.C

mutual

/-- An expression of numbers, variables, elements, dereferences, addresses and operators. -/
def Expr.IsPlain : Expr → Prop
  | .int v .int => 0 ≤ v
  | .lval l | .addressOf l => l.IsPlain
  | .unary _ e => e.IsPlain
  | .binary _ a b => a.IsPlain ∧ b.IsPlain
  | .conditional c a b => c.IsPlain ∧ a.IsPlain ∧ b.IsPlain
  | _ => False

/-- A variable or a dereferenced address of this kind, with indices behind it. -/
def Lval.IsPlain : Lval → Prop
  | .var s offset => Text.isIdentifier s.name ∧ offset.IsPlain
  | .mem e offset => e.IsPlain ∧ offset.IsPlain

/-- A chain of indices of this kind. -/
def Offset.IsPlain : Offset → Prop
  | .none => True
  | .index i sub => i.IsPlain ∧ sub.IsPlain
  | _ => False

end

mutual

/-- The expression in which every variable is only a name. -/
def Expr.byName : Expr → Expr
  | .globalAddress v e => .globalAddress v e.byName
  | .lval l => .lval l.byName
  | .cast t e => .cast t e.byName
  | .unary op e => .unary op e.byName
  | .binary op a b => .binary op a.byName b.byName
  | .conditional c a b => .conditional c.byName a.byName b.byName
  | .addressOf l => .addressOf l.byName
  | .int v k => .int v k
  | .float bits k => .float bits k
  | .string text address => .string text address
  | .sizeOf t => .sizeOf t
  | .unresolved reason => .unresolved reason

/-- The lvalue in which every variable is only a name. -/
def Lval.byName : Lval → Lval
  | .var s offset => .var { name := s.name } offset.byName
  | .mem e offset => .mem e.byName offset.byName

/-- The chain in which every variable is only a name. -/
def Offset.byName : Offset → Offset
  | .none => .none
  | .field name key sub => .field name key sub.byName
  | .index i sub => .index i.byName sub.byName
  | .unresolved reason => .unresolved reason

end

variable {e f : Expr} {l l' : Lval} {o o' : Offset} {m n : Nat} {rest rest' : List Char}

theorem BinOp.precedence_bounds (op : BinOp) : 4 ≤ op.precedence ∧ op.precedence ≤ 13 := by
  cases op <;> simp [BinOp.precedence]

/-- Only conditionals and binary operators bind looser than a prefix sign. -/
theorem shape_or_precedence (h : e.IsPlain) :
    (∃ c a b, e = .conditional c a b) ∨ (∃ op a b, e = .binary op a b) ∨ 15 ≤ e.precedence := by
  cases e with
  | conditional c a b => exact .inl ⟨c, a, b, rfl⟩
  | binary op a b => exact .inr (.inl ⟨op, a, b, rfl⟩)
  | int v => simp only [Expr.precedence]; split <;> simp
  | lval l => cases l with
    | var => simp [Expr.precedence]
    | mem _ offset => cases offset <;> simp [Expr.precedence]
  | globalAddress => simp [Expr.IsPlain] at h
  | _ => simp [Expr.precedence]

/-- How tightly an expression binds does not depend on the descriptions of its variables. -/
theorem precedence_byName (h : e.IsPlain) : e.byName.precedence = e.precedence := by
  cases e with
  | lval l => cases l with
    | var => simp [Expr.byName, Lval.byName, Expr.precedence]
    | mem _ offset =>
      cases offset <;> simp [Expr.byName, Lval.byName, Offset.byName, Expr.precedence]
  | globalAddress => simp [Expr.IsPlain] at h
  | _ => simp [Expr.byName, Expr.precedence]

/-! ### What may follow an operand -/

/-- What stands behind an operand that binds at least as tightly as `least`: no more of its last
word, no index, and no operator that would take the operand's end away from it. -/
structure Ends (least : Nat) (rest : List Char) : Prop where
  word : ∀ c ∈ rest.head?, Text.isWordChar c = false
  index : rest.head? ≠ some '['
  operator : ∀ (op : BinOp) (tail : List Char),
    rest = spaced op.symbol ++ tail → op.precedence < least
  question : ∀ tail : List Char, rest = spaced "?" ++ tail → 3 < least

namespace Ends

theorem nil : Ends m [] :=
  ⟨by simp, by simp, by simp [spaced], by simp [spaced]⟩

theorem mono (h : Ends m rest) (hle : m ≤ n) : Ends n rest :=
  ⟨h.word, h.index, fun op tail heq => Nat.lt_of_lt_of_le (h.operator op tail heq) hle,
    fun tail heq => Nat.lt_of_lt_of_le (h.question tail heq) hle⟩

theorem parenthesis : Ends m (')' :: rest) :=
  ⟨by simp [Text.isWordChar], by simp, by simp [spaced], by simp [spaced]⟩

theorem bracket : Ends m (']' :: rest) :=
  ⟨by simp [Text.isWordChar], by simp, by simp [spaced], by simp [spaced]⟩

theorem sign {sign : String} (hspace : ' ' ∉ sign.toList)
    (hop : ∀ op : BinOp, sign = op.symbol → op.precedence < m) (hquestion : sign = "?" → 3 < m) :
    Ends m (spaced sign ++ rest) where
  word := by simp [spaced, Text.isWordChar]
  index := by simp [spaced]
  operator op _ heq := hop op (spaced_inj hspace (space_notMem_symbol op) heq).1
  question _ heq := hquestion (spaced_inj hspace (by decide) heq).1

theorem symbol {op : BinOp} (h : op.precedence < m) : Ends m (spaced op.symbol ++ rest) := by
  refine sign (space_notMem_symbol op) (fun op' heq => symbol_inj heq ▸ h) ?_
  cases op <;> simp [BinOp.symbol]

theorem questionMark (h : 3 < m) : Ends m (spaced "?" ++ rest) :=
  sign (by decide) (fun op heq => by cases op <;> simp [BinOp.symbol] at heq) fun _ => h

theorem colon : Ends m (spaced ":" ++ rest) :=
  sign (by decide) (fun op heq => by cases op <;> simp [BinOp.symbol] at heq) (by simp)

end Ends

/-- Operands of less than `n` characters, bracketed for a place that takes what binds at least as
tightly as `m`, are determined by a text that they start, as is what follows them. -/
def ReadsUniquely (m n : Nat) : Prop :=
  ∀ {e f : Expr} {rest rest' : List Char}, e.IsPlain → f.IsPlain → Ends m rest → Ends m rest' →
    (e.spelling m).length < n → e.spelling m ++ rest = f.spelling m ++ rest' →
    e.byName = f.byName ∧ rest = rest'

/-! ### Indices and places -/

/-- A chain of indices is read up to what follows it. -/
theorem offset_reads_uniquely (hread : ReadsUniquely 0 n) : {o o' : Offset} → o.IsPlain →
    o'.IsPlain → rest.head? ≠ some '[' → rest'.head? ≠ some '[' → o.text.toList.length < n →
    o.text.toList ++ rest = o'.text.toList ++ rest' → o.byName = o'.byName ∧ rest = rest'
  | .none, .none, _, _, _, _, _, htext => ⟨rfl, by simpa [Offset.text] using htext⟩
  | .none, .index .., _, _, hrest, _, _, htext => by
    simp [Offset.text] at htext
    simp [htext] at hrest
  | .index .., .none, _, _, _, hrest', _, htext => by
    simp [Offset.text] at htext
    simp [← htext] at hrest'
  | .index i sub, .index i' sub', hplain, hplain', hrest, hrest', hlength, htext => by
    simp only [Offset.IsPlain] at hplain hplain'
    simp only [Offset.text, String.toList_append, List.length_append] at hlength
    have htext : i.spelling 0 ++ ']' :: (sub.text.toList ++ rest) =
        i'.spelling 0 ++ ']' :: (sub'.text.toList ++ rest') := by
      rw [spelling_of_le (Nat.zero_le _), spelling_of_le (Nat.zero_le _)]
      simpa [Offset.text] using htext
    have hi := hread hplain.1 hplain'.1 .bracket .bracket
      (by rw [spelling_of_le (Nat.zero_le _)]; omega) htext
    have hsub := offset_reads_uniquely hread hplain.2 hplain'.2 hrest hrest' (by omega)
      (List.cons.inj hi.2).2
    exact ⟨by rw [Offset.byName, Offset.byName, hi.1, hsub.1], hsub.2⟩

/-- The text of an lvalue behind an address sign: a dereferenced address stands in parentheses. -/
def Lval.place : Lval → List Char
  | .var s offset => s.name.toList ++ offset.text.toList
  | .mem e offset => '(' :: '*' :: (e.spelling 15 ++ ')' :: offset.text.toList)

/-- A chain of indices starts with a bracket, so no word goes on into it. -/
theorem word_ends_before_offset (hplain : o.IsPlain)
    (hrest : ∀ c ∈ rest.head?, Text.isWordChar c = false) :
    ∀ c ∈ (o.text.toList ++ rest).head?, Text.isWordChar c = false := by
  cases o with
  | none => simpa [Offset.text] using hrest
  | index => simp [Offset.text, Text.isWordChar]
  | _ => simp [Offset.IsPlain] at hplain

/-- A place is read up to what follows it if shorter texts are. -/
theorem place_reads_uniquely (hread : ∀ m ≤ 15, ReadsUniquely m n) (hplain : l.IsPlain)
    (hplain' : l'.IsPlain) (hrest : Ends 15 rest) (hrest' : Ends 15 rest')
    (hlength : l.place.length < n + 1) (htext : l.place ++ rest = l'.place ++ rest') :
    l.byName = l'.byName ∧ rest = rest' := by
  cases l <;> cases l' <;>
    simp only [Lval.IsPlain, Lval.place, List.length_append, List.length_cons, List.append_assoc,
      List.cons_append] at hplain hplain' hlength htext
  case var.var s o s' o' =>
    obtain ⟨hword, c, tail, hfirst, -⟩ := Text.isIdentifier_word hplain.1
    obtain ⟨hname, ho⟩ := Text.cut_at_end_inj hword (Text.isIdentifier_word hplain'.1).1
      (word_ends_before_offset hplain.2 hrest.word)
      (word_ends_before_offset hplain'.2 hrest'.word) htext
    have ho := offset_reads_uniquely (hread 0 (by decide)) hplain.2 hplain'.2 hrest.index
      hrest'.index (by rw [hfirst, List.length_cons] at hlength; omega) ho
    exact ⟨by rw [Lval.byName, Lval.byName, String.toList_injective hname, ho.1], ho.2⟩
  case mem.mem e o e' o' =>
    have he := hread 15 (Nat.le_refl _) hplain.1 hplain'.1 .parenthesis .parenthesis (by omega)
      (List.cons.inj (List.cons.inj htext).2).2
    have ho := offset_reads_uniquely (hread 0 (by decide)) hplain.2 hplain'.2 hrest.index
      hrest'.index (by omega) (List.cons.inj he.2).2
    exact ⟨by rw [Lval.byName, Lval.byName, he.1, ho.1], ho.2⟩
  case var.mem => exact absurd htext (Text.identifier_append_ne hplain.1 rfl _ _)
  case mem.var => exact absurd htext.symm (Text.identifier_append_ne hplain'.1 rfl _ _)

/-! ### First operands -/

/-- What an operand starts with. -/
inductive Lead
  | word | parenthesis | star | ampersand
  | sign (op : UnOp)

/-- What a character starts. -/
def Lead.ofChar : Char → Lead
  | '(' => parenthesis
  | '*' => star
  | '&' => ampersand
  | '-' => sign .neg
  | '~' => sign .bnot
  | '!' => sign .lnot
  | _ => word

/-- An operand that parentheses or a prefix sign hold together, by what it starts with. -/
inductive Primary : Lead → Expr → Prop
  | number {v : Int64} (h : 0 ≤ v) : Primary .word (.int v .int)
  | named {s : Symbol} {o : Offset} (h : (Lval.var s o).IsPlain) :
    Primary .word (.lval (.var s o))
  | dereferenced {a : Expr} (h : a.IsPlain) : Primary .star (.lval (.mem a .none))
  | element {a i : Expr} {sub : Offset} (h : (Lval.mem a (.index i sub)).IsPlain) :
    Primary .parenthesis (.lval (.mem a (.index i sub)))
  | compound {e : Expr} (h : e.IsPlain) (hprecedence : e.precedence < 15) : Primary .parenthesis e
  | unary {op : UnOp} {e : Expr} (h : e.IsPlain) : Primary (.sign op) (.unary op e)
  | address {l : Lval} (h : l.IsPlain) : Primary .ampersand (.addressOf l)

theorem exists_primary (h : e.IsPlain) : ∃ lead, Primary lead e := by
  by_cases hprecedence : e.precedence < 15
  · exact ⟨_, .compound h hprecedence⟩
  cases e with
  | int v k =>
    cases k <;> simp only [Expr.IsPlain] at h
    exact ⟨_, .number h⟩
  | lval l =>
    rw [Expr.IsPlain] at h
    cases l with
    | var => exact ⟨_, .named h⟩
    | mem a offset =>
      cases offset with
      | none => exact ⟨_, .dereferenced (by simpa [Lval.IsPlain, Offset.IsPlain] using h)⟩
      | index => exact ⟨_, .element h⟩
      | _ => simp [Lval.IsPlain, Offset.IsPlain] at h
  | unary => exact ⟨_, .unary (by simpa [Expr.IsPlain] using h)⟩
  | addressOf => exact ⟨_, .address (by simpa [Expr.IsPlain] using h)⟩
  | binary op =>
    cases op <;> simp [Expr.precedence, BinOp.precedence] at hprecedence
  | conditional => simp [Expr.precedence] at hprecedence
  | _ => simp [Expr.IsPlain] at h

theorem spelling_number {v : Int64} :
    (Expr.int v .int).spelling 15 = (toString v.toInt).toList := by
  rw [spelling_of_le (by simp only [Expr.precedence]; split <;> decide), toList_text_int]

theorem spelling_variable {s : Symbol} :
    (Expr.lval (.var s o)).spelling 15 = (Lval.var s o).place := by
  rw [spelling_of_le (by simp [Expr.precedence])]
  simp [Expr.text, Lval.text, Lval.place]

theorem spelling_dereferenced {a : Expr} :
    (Expr.lval (.mem a .none)).spelling 15 = '*' :: a.spelling 15 := by
  rw [spelling_of_le (by simp [Expr.precedence])]
  simp [Expr.text, Lval.text, Expr.spelling, Expr.operand]

theorem spelling_element {a i : Expr} {sub : Offset} :
    (Expr.lval (.mem a (.index i sub))).spelling 15 = (Lval.mem a (.index i sub)).place := by
  rw [spelling_of_le (by simp [Expr.precedence])]
  simp [Expr.text, Lval.text, Lval.place, Expr.spelling, Expr.operand]

theorem spelling_address (h : l.IsPlain) :
    (Expr.addressOf l).spelling 15 = '&' :: l.place := by
  rw [spelling_of_le (by simp [Expr.precedence])]
  cases l with
  | var => simp [Expr.text, Lval.text, Lval.place]
  | mem a offset =>
    cases offset with
    | none => simp [Expr.text, Offset.text, Lval.place, Expr.spelling, Expr.operand]
    | index => simp [Expr.text, Lval.text, Lval.place, Expr.spelling, Expr.operand]
    | _ => simp [Lval.IsPlain, Offset.IsPlain] at h

theorem ofChar_of_isWordChar {c : Char} (h : Text.isWordChar c) : Lead.ofChar c = .word := by
  unfold Lead.ofChar
  split <;> first | rfl | simp [Text.isWordChar] at h

/-- The first character of an operand tells what the operand starts with. -/
theorem Primary.starts {lead : Lead} (h : Primary lead e) :
    ∃ c tail, e.spelling 15 = c :: tail ∧ Lead.ofChar c = lead := by
  cases h with
  | number h =>
    obtain ⟨hword, c, tail, hdigits, -⟩ := Text.toString_word (Int64.le_iff_toInt_le.mp h)
    exact ⟨c, tail, by rw [spelling_number, hdigits],
      ofChar_of_isWordChar (hword c (hdigits ▸ List.mem_cons_self))⟩
  | @named s o h =>
    rw [Lval.IsPlain] at h
    obtain ⟨hword, c, tail, hname, -⟩ := Text.isIdentifier_word h.1
    exact ⟨c, tail ++ o.text.toList, by rw [spelling_variable, Lval.place, hname, List.cons_append],
      ofChar_of_isWordChar (hword c (by simp [hname]))⟩
  | dereferenced => exact ⟨_, _, spelling_dereferenced, rfl⟩
  | element => exact ⟨_, _, spelling_element, rfl⟩
  | compound _ hprecedence => exact ⟨_, _, spelling_of_lt hprecedence, rfl⟩
  | @unary op => cases op <;> exact ⟨_, _, spelling_unary _ _, rfl⟩
  | address h => exact ⟨_, _, spelling_address h, rfl⟩

/-- A number is not read as a name. -/
theorem number_ne_name {v : Int64} {name : String} (hv : 0 ≤ v) (h : Text.isIdentifier name)
    (hrest : ∀ c ∈ rest.head?, Text.isWordChar c = false)
    (hrest' : ∀ c ∈ rest'.head?, Text.isWordChar c = false) :
    (toString v.toInt).toList ++ rest ≠ name.toList ++ rest' := by
  intro htext
  obtain ⟨hdigits, c, tail, hnumber, hdigit⟩ := Text.toString_word (Int64.le_iff_toInt_le.mp hv)
  obtain ⟨hword, c', tail', hname, hdigit'⟩ := Text.isIdentifier_word h
  have hsame := (Text.cut_at_end_inj hdigits hword hrest hrest' htext).1
  rw [hnumber, hname] at hsame
  simp [(List.cons.inj hsame).1, hdigit'] at hdigit

/-- A compound in parentheses is not read as the start of an element: what is dereferenced there
binds tighter than a compound. -/
theorem compound_ne_element (hread : ∀ m ≤ 15, ReadsUniquely m n) (he : e.IsPlain)
    (hprecedence : e.precedence < 15) (hf : f.IsPlain)
    (hlength : e.text.toList.length < n ∨ (f.spelling 15).length + 1 < n) :
    e.text.toList ++ ')' :: rest ≠ '*' :: (f.spelling 15 ++ ')' :: rest') := by
  intro htext
  let star : Expr := .lval (.mem f .none)
  have hstar : star.IsPlain := by simpa [star, Expr.IsPlain, Lval.IsPlain, Offset.IsPlain] using hf
  have hspelling : star.spelling 0 = '*' :: f.spelling 15 := by
    rw [← spelling_dereferenced, spelling_of_le (Nat.zero_le _),
      spelling_of_le (by simp [Expr.precedence])]
  have htext : e.spelling 0 ++ ')' :: rest = star.spelling 0 ++ ')' :: rest' := by
    rw [spelling_of_le (Nat.zero_le _), hspelling, htext, List.cons_append]
  have hsame : e.byName = star.byName := by
    rcases hlength with hlength | hlength
    · exact (hread 0 (by decide) he hstar .parenthesis .parenthesis
        (by rwa [spelling_of_le (Nat.zero_le _)]) htext).1
    · exact (hread 0 (by decide) hstar he .parenthesis .parenthesis
        (by rw [hspelling]; exact hlength) htext.symm).1.symm
  rw [← precedence_byName he, hsame, precedence_byName hstar] at hprecedence
  simp [star, Expr.precedence] at hprecedence

/-- A number or a name is read up to what follows it if shorter texts are. -/
theorem word_reads_uniquely (hread : ∀ m ≤ 15, ReadsUniquely m n) (he : Primary .word e)
    (hf : Primary .word f) (hrest : Ends 15 rest) (hrest' : Ends 15 rest')
    (hlength : (e.spelling 15).length < n + 1)
    (htext : e.spelling 15 ++ rest = f.spelling 15 ++ rest') :
    e.byName = f.byName ∧ rest = rest' := by
  cases he <;> cases hf
  case number.number v h v' h' =>
    rw [spelling_number, spelling_number] at htext
    obtain ⟨hdigits, hrests⟩ := Text.cut_at_end_inj
      (Text.toString_word (Int64.le_iff_toInt_le.mp h)).1
      (Text.toString_word (Int64.le_iff_toInt_le.mp h')).1 hrest.word hrest'.word htext
    obtain rfl : v = v' := by
      have hread := Text.parseInt64?_toString v
      rw [String.toList_injective hdigits, Text.parseInt64?_toString v'] at hread
      exact (Option.some.inj hread).symm
    exact ⟨rfl, hrests⟩
  case number.named v h s o h' =>
    rw [spelling_number, spelling_variable, Lval.place, List.append_assoc] at htext
    exact absurd htext (number_ne_name h h'.1 hrest.word
      (word_ends_before_offset h'.2 hrest'.word))
  case named.number s o h v h' =>
    rw [spelling_number, spelling_variable, Lval.place, List.append_assoc] at htext
    exact absurd htext.symm (number_ne_name h' h.1 hrest'.word
      (word_ends_before_offset h.2 hrest.word))
  case named.named s o h s' o' h' =>
    rw [spelling_variable] at hlength
    rw [spelling_variable, spelling_variable] at htext
    have hplace := place_reads_uniquely hread h h' hrest hrest' hlength htext
    exact ⟨by rw [Expr.byName, Expr.byName, hplace.1], hplace.2⟩

/-- An element or a compound in parentheses is read up to what follows it if shorter texts are. -/
theorem parenthesis_reads_uniquely (hread : ∀ m ≤ 15, ReadsUniquely m n)
    (he : Primary .parenthesis e) (hf : Primary .parenthesis f) (hrest : Ends 15 rest)
    (hrest' : Ends 15 rest') (hlength : (e.spelling 15).length < n + 1)
    (htext : e.spelling 15 ++ rest = f.spelling 15 ++ rest') :
    e.byName = f.byName ∧ rest = rest' := by
  cases he <;> cases hf
  case element.element a i sub h a' i' sub' h' =>
    rw [spelling_element] at hlength
    rw [spelling_element, spelling_element] at htext
    have hplace := place_reads_uniquely hread h h' hrest hrest' hlength htext
    exact ⟨by rw [Expr.byName, Expr.byName, hplace.1], hplace.2⟩
  case compound.compound h hprecedence h' hprecedence' =>
    rw [spelling_of_lt hprecedence, List.length_cons, List.length_append] at hlength
    rw [spelling_of_lt hprecedence, spelling_of_lt hprecedence'] at htext
    have htext : e.spelling 0 ++ ')' :: rest = f.spelling 0 ++ ')' :: rest' := by
      rw [spelling_of_le (Nat.zero_le _), spelling_of_le (Nat.zero_le _)]
      simpa using htext
    have hinner := hread 0 (by decide) h h' .parenthesis .parenthesis
      (by rw [spelling_of_le (Nat.zero_le _)]; omega) htext
    exact ⟨hinner.1, (List.cons.inj hinner.2).2⟩
  case element.compound a i sub h h' hprecedence =>
    rw [spelling_element, Lval.place, List.length_cons, List.length_cons,
      List.length_append] at hlength
    rw [spelling_element, Lval.place, spelling_of_lt hprecedence] at htext
    refine absurd (List.cons.inj htext).2.symm ?_
    simpa using compound_ne_element hread h' hprecedence h.1 (.inr (by omega))
  case compound.element h hprecedence a i sub h' =>
    rw [spelling_of_lt hprecedence, List.length_cons, List.length_append] at hlength
    rw [spelling_element, Lval.place, spelling_of_lt hprecedence] at htext
    refine absurd (List.cons.inj htext).2 ?_
    simpa using compound_ne_element hread h hprecedence h'.1 (.inl (by omega))

/-- A first operand is read up to what follows it if shorter texts are. -/
theorem primary_reads_uniquely (hread : ∀ m ≤ 15, ReadsUniquely m n) :
    ReadsUniquely 15 (n + 1) := by
  intro e f rest rest' he hf hrest hrest' hlength htext
  obtain ⟨lead, hprimary⟩ := exists_primary he
  obtain ⟨lead', hprimary'⟩ := exists_primary hf
  obtain rfl : lead = lead' := by
    obtain ⟨c, tail, hc, rfl⟩ := hprimary.starts
    obtain ⟨c', tail', hc', rfl⟩ := hprimary'.starts
    rw [hc, hc'] at htext
    rw [(List.cons.inj htext).1]
  cases lead with
  | word => exact word_reads_uniquely hread hprimary hprimary' hrest hrest' hlength htext
  | parenthesis =>
    exact parenthesis_reads_uniquely hread hprimary hprimary' hrest hrest' hlength htext
  | star =>
    cases hprimary with | dereferenced h => ?_
    cases hprimary' with | dereferenced h' => ?_
    rw [spelling_dereferenced, List.length_cons] at hlength
    rw [spelling_dereferenced, spelling_dereferenced] at htext
    have ha := hread 15 (Nat.le_refl _) h h' hrest hrest' (by omega) (List.cons.inj htext).2
    exact ⟨by rw [Expr.byName, Expr.byName, Lval.byName, Lval.byName, ha.1], ha.2⟩
  | sign op =>
    cases hprimary with | unary h => ?_
    cases hprimary' with | unary h' => ?_
    have hsymbol : op.symbol.toList.length = 1 := by cases op <;> rfl
    rw [spelling_unary, List.length_append, hsymbol] at hlength
    rw [spelling_unary, spelling_unary, List.append_assoc, List.append_assoc] at htext
    have ha := hread 15 (Nat.le_refl _) h h' hrest hrest' (by omega) (List.append_cancel_left htext)
    exact ⟨by rw [Expr.byName, Expr.byName, ha.1], ha.2⟩
  | ampersand =>
    cases hprimary with | address h => ?_
    cases hprimary' with | address h' => ?_
    rw [spelling_address h, List.length_cons] at hlength
    rw [spelling_address h, spelling_address h'] at htext
    have hplace := place_reads_uniquely hread h h' hrest hrest' (by omega) (List.cons.inj htext).2
    exact ⟨by rw [Expr.byName, Expr.byName, hplace.1], hplace.2⟩

/-! ### Links -/

/-- What stands first where an operand may bind as loosely as `least`. -/
def Expr.seed : Expr → Nat → Expr
  | .binary op a b, least =>
    if least ≤ op.precedence then a.seed op.precedence else .binary op a b
  | e, _ => e

/-- The operators and operands that follow it, from left to right. -/
def Expr.links : Expr → Nat → List (BinOp × Expr)
  | .binary op a b, least =>
    if least ≤ op.precedence then a.links op.precedence ++ [(op, b)] else []
  | _, _ => []

/-- The characters of an operator and its right operand. -/
def linkSpelling (link : BinOp × Expr) : List Char :=
  spaced link.1.symbol ++ link.2.spelling (link.1.precedence + 1)

theorem links_of_not_binary {least : Nat} (h : ∀ op a b, e ≠ .binary op a b) :
    e.links least = [] := by
  cases e <;> first | rfl | exact absurd rfl (h _ _ _)

/-- Links put together again make the expression. -/
theorem foldl_links (e : Expr) (least : Nat) :
    (e.links least).foldl (fun a link => .binary link.1 a link.2) (e.seed least) = e := by
  fun_induction e.seed least with
  | case1 op a b least hle ih => simp [Expr.links, hle, ih]
  | case2 op a b least hle => simp [Expr.links, hle]
  | case3 e least hne => rw [links_of_not_binary hne, List.foldl_nil]

/-- What binds looser than every operator a place takes stands in parentheses there as it does in
the tightest place; what binds tighter stands bare in both. -/
theorem spelling_eq_of_not_taken {least : Nat} (hleast : 4 ≤ least ∧ least ≤ 15)
    (hprecedence : e.precedence < least ∨ 15 ≤ e.precedence) :
    e.spelling least = e.spelling 15 := by
  rcases hprecedence with hlt | hge
  · rw [spelling_of_lt hlt, spelling_of_lt (Nat.lt_of_lt_of_le hlt hleast.2)]
  · rw [spelling_of_le (by omega), spelling_of_le hge]

/-- The text of an operand is that of what stands first and of its links. -/
theorem spelling_eq_links {least : Nat} (h : e.IsPlain) (hleast : 4 ≤ least ∧ least ≤ 15) :
    e.spelling least = (e.seed least).spelling 15 ++ (e.links least).flatMap linkSpelling := by
  fun_induction e.seed least with
  | case1 op a b least hle ih =>
    rw [Expr.IsPlain] at h
    have hbounds := op.precedence_bounds
    rw [spelling_of_le hle, toList_text_binary, ih h.1 (by omega), Expr.links, if_pos hle]
    simp [linkSpelling]
  | case2 op a b least hle =>
    have hlt : (Expr.binary op a b).precedence < least := Nat.lt_of_not_le hle
    rw [spelling_eq_of_not_taken hleast (.inl hlt), Expr.links, if_neg hle]
    simp
  | case3 e least hne =>
    have hprecedence : e.precedence < least ∨ 15 ≤ e.precedence := by
      obtain ⟨c, a, b, rfl⟩ | ⟨op, a, b, rfl⟩ | hprecedence := shape_or_precedence h
      · exact .inl hleast.1
      · exact absurd rfl (hne op a b)
      · exact .inr hprecedence
    rw [spelling_eq_of_not_taken hleast hprecedence, links_of_not_binary hne]
    simp

/-- Links of operators that bind at least as tightly as `least`, none tighter than the one before
it. -/
structure Linked (least : Nat) (links : List (BinOp × Expr)) : Prop where
  isPlain : ∀ link ∈ links, link.2.IsPlain
  le_precedence : ∀ link ∈ links, least ≤ link.1.precedence
  descends : links.Pairwise fun link next => next.1.precedence ≤ link.1.precedence

theorem linked_links (least : Nat) (h : e.IsPlain) :
    (e.seed least).IsPlain ∧ Linked least (e.links least) := by
  fun_induction e.seed least with
  | case1 op a b least hle ih =>
    rw [Expr.IsPlain] at h
    obtain ⟨hseed, hlinks⟩ := ih h.1
    rw [Expr.links, if_pos hle]
    refine ⟨hseed, ?_, ?_, ?_⟩
    · simpa [or_imp, forall_and, h.2] using hlinks.isPlain
    · simpa [or_imp, forall_and, hle] using fun op b hlink =>
        Nat.le_trans hle (hlinks.le_precedence (op, b) hlink)
    · refine List.pairwise_append.mpr ⟨hlinks.descends, by simp, ?_⟩
      simpa using fun op b hlink => hlinks.le_precedence (op, b) hlink
  | case2 op a b least hle =>
    rw [Expr.links, if_neg hle]
    exact ⟨h, by simp, by simp, .nil⟩
  | case3 e least hne =>
    rw [links_of_not_binary hne]
    exact ⟨h, by simp, by simp, .nil⟩

/-- What follows a link is no operator that binds tighter than the link's own. -/
theorem Linked.ends {least : Nat} {link : BinOp × Expr} {links : List (BinOp × Expr)}
    (h : Linked least (link :: links)) (hrest : Ends least rest) :
    Ends (link.1.precedence + 1) (links.flatMap linkSpelling ++ rest) := by
  cases links with
  | nil => exact hrest.mono (Nat.le_succ_of_le (h.le_precedence link List.mem_cons_self))
  | cons next links =>
    rw [List.flatMap_cons, linkSpelling, List.append_assoc, List.append_assoc]
    exact .symbol (Nat.lt_succ_of_le
      ((List.pairwise_cons.mp h.descends).1 next List.mem_cons_self))

/-- What follows a first operand takes no part of it. -/
theorem Linked.ends_seed {least : Nat} {links : List (BinOp × Expr)} (h : Linked least links)
    (hleast : least ≤ 15) (hrest : Ends least rest) :
    Ends 15 (links.flatMap linkSpelling ++ rest) := by
  cases links with
  | nil => exact hrest.mono hleast
  | cons link links =>
    rw [List.flatMap_cons, linkSpelling, List.append_assoc, List.append_assoc]
    exact .symbol (Nat.lt_of_le_of_lt link.1.precedence_bounds.2 (by decide))

theorem Linked.tail {least : Nat} {link : BinOp × Expr} {links : List (BinOp × Expr)}
    (h : Linked least (link :: links)) : Linked least links :=
  ⟨fun next hnext => h.isPlain next (List.mem_cons_of_mem _ hnext),
    fun next hnext => h.le_precedence next (List.mem_cons_of_mem _ hnext),
    (List.pairwise_cons.mp h.descends).2⟩

/-- A place that takes the operator of a link does not end before it. -/
theorem Linked.not_ends {least : Nat} {link : BinOp × Expr} {links : List (BinOp × Expr)}
    (h : Linked least (link :: links)) :
    ¬ Ends least ((link :: links).flatMap linkSpelling ++ rest) := by
  intro hends
  rw [List.flatMap_cons, linkSpelling, List.append_assoc, List.append_assoc] at hends
  exact Nat.not_lt.mpr (h.le_precedence link List.mem_cons_self) (hends.operator _ _ rfl)

/-- A link in which every variable is only a name. -/
def linkByName (link : BinOp × Expr) : BinOp × Expr :=
  (link.1, link.2.byName)

/-- Links are read up to what follows them if their operands are. -/
theorem links_read_uniquely {least : Nat} (hread : ∀ m ≤ 15, ReadsUniquely m n)
    {links links' : List (BinOp × Expr)} (hlinks : Linked least links)
    (hlinks' : Linked least links') (hrest : Ends least rest) (hrest' : Ends least rest')
    (hlength : (links.flatMap linkSpelling).length < n)
    (htext : links.flatMap linkSpelling ++ rest = links'.flatMap linkSpelling ++ rest') :
    links.map linkByName = links'.map linkByName ∧ rest = rest' := by
  induction links generalizing links' with
  | nil =>
    cases links' with
    | nil => exact ⟨rfl, htext⟩
    | cons =>
      rw [List.flatMap_nil, List.nil_append] at htext
      exact absurd (htext ▸ hrest) hlinks'.not_ends
  | cons link links ih =>
    cases links' with
    | nil =>
      rw [List.flatMap_nil, List.nil_append] at htext
      exact absurd (htext ▸ hrest') hlinks.not_ends
    | cons link' links' =>
      obtain ⟨op, b⟩ := link
      obtain ⟨op', b'⟩ := link'
      have hbound := op.precedence_bounds.2
      simp only [List.flatMap_cons, linkSpelling, List.append_assoc, List.length_append]
        at htext hlength
      obtain ⟨hsymbol, hoperand⟩ :=
        spaced_inj (space_notMem_symbol op) (space_notMem_symbol op') htext
      obtain rfl := symbol_inj hsymbol
      have hplain : b.IsPlain := hlinks.isPlain (op, b) List.mem_cons_self
      have hplain' : b'.IsPlain := hlinks'.isPlain (op, b') List.mem_cons_self
      -- A right operand takes no operator as strong as its own, so it stops before the next link.
      obtain ⟨hb, htail⟩ := hread (op.precedence + 1) (by omega) hplain hplain'
        (hlinks.ends hrest) (hlinks'.ends hrest') (by omega) hoperand
      obtain ⟨htail, hrests⟩ := ih hlinks.tail hlinks'.tail (by omega) htail
      exact ⟨by rw [List.map_cons, List.map_cons, htail, linkByName, linkByName, hb], hrests⟩

/-- Names are taken link by link. -/
theorem byName_foldl_links (links : List (BinOp × Expr)) (e : Expr) :
    (links.foldl (fun a link => .binary link.1 a link.2) e).byName =
      (links.map linkByName).foldl (fun a link => .binary link.1 a link.2) e.byName := by
  induction links generalizing e with
  | nil => rfl
  | cons link links ih => rw [List.foldl_cons, ih, Expr.byName, List.map_cons, List.foldl_cons,
      linkByName]

/-- An operand is read up to what follows it if first operands are, and shorter texts. -/
theorem operand_reads_uniquely {least : Nat} (hread : ∀ m ≤ 15, ReadsUniquely m n)
    (hleast : 4 ≤ least ∧ least ≤ 15) : ReadsUniquely least (n + 1) := by
  intro e f rest rest' he hf hrest hrest' hlength htext
  obtain ⟨hseed, hlinks⟩ := linked_links least he
  obtain ⟨hseed', hlinks'⟩ := linked_links least hf
  rw [spelling_eq_links he hleast, List.length_append] at hlength
  rw [spelling_eq_links he hleast, spelling_eq_links hf hleast, List.append_assoc,
    List.append_assoc] at htext
  have hnonempty : 1 ≤ ((e.seed least).spelling 15).length := by
    obtain ⟨_, hprimary⟩ := exists_primary hseed
    obtain ⟨c, tail, hstart, -⟩ := hprimary.starts
    simp [hstart]
  obtain ⟨hfirst, htext⟩ := primary_reads_uniquely hread hseed hseed'
    (hlinks.ends_seed hleast.2 hrest) (hlinks'.ends_seed hleast.2 hrest') (by omega) htext
  obtain ⟨hmap, hrests⟩ :=
    links_read_uniquely hread hlinks hlinks' hrest hrest' (by omega) htext
  refine ⟨?_, hrests⟩
  rw [← foldl_links e least, ← foldl_links f least, byName_foldl_links, byName_foldl_links, hfirst,
    hmap]

/-! ### Whole expressions -/

/-- Where a conditional may stand, its condition is spelled as an operand; everything else is. -/
theorem spelling_of_le_three (h : e.IsPlain) (hm : m ≤ 3) :
    (∃ c a b, e = .conditional c a b ∧ e.spelling m = c.spelling 4 ++
      (spaced "?" ++ (a.spelling 4 ++ (spaced ":" ++ b.spelling 3)))) ∨
    e.spelling m = e.spelling 4 := by
  obtain ⟨c, a, b, rfl⟩ | ⟨op, a, b, rfl⟩ | hprecedence := shape_or_precedence h
  · exact .inl ⟨c, a, b, rfl, by rw [spelling_of_le hm, toList_text_conditional]⟩
  · have hop : 4 ≤ (Expr.binary op a b).precedence := op.precedence_bounds.1
    exact .inr (by rw [spelling_of_le (by omega), spelling_of_le hop])
  · exact .inr (by rw [spelling_of_le (by omega), spelling_of_le (by omega)])

/-- Whole expressions are read up to what follows them if operands are, and shorter texts. -/
theorem whole_reads_uniquely (hread : ∀ m ≤ 15, ReadsUniquely m n) (hm : m ≤ 3) :
    ReadsUniquely m (n + 1) := by
  have hoperand : ReadsUniquely 4 (n + 1) := operand_reads_uniquely hread (by decide)
  have hends {rest tail : List Char} (h : Ends m rest) : rest ≠ spaced "?" ++ tail :=
    fun heq => Nat.not_lt.mpr hm (h.question tail heq)
  intro e f rest rest' he hf hrest hrest' hlength htext
  obtain ⟨c, a, b, rfl, hspelling⟩ | hspelling := spelling_of_le_three he hm <;>
    obtain ⟨c', a', b', rfl, hspelling'⟩ | hspelling' := spelling_of_le_three hf hm <;>
    simp only [hspelling, hspelling', List.append_assoc, List.length_append] at hlength htext
  · rw [Expr.IsPlain] at he hf
    obtain ⟨hc, htext⟩ := hread 4 (by decide) he.1 hf.1 (.questionMark (by decide))
      (.questionMark (by decide)) (by simp [spaced] at hlength; omega) htext
    obtain ⟨ha, htext⟩ := hread 4 (by decide) he.2.1 hf.2.1 .colon .colon
      (by simp [spaced] at hlength; omega) (List.append_cancel_left htext)
    obtain ⟨hb, hrests⟩ := hread 3 (by decide) he.2.2 hf.2.2 (hrest.mono hm) (hrest'.mono hm)
      (by simp [spaced] at hlength; omega) (List.append_cancel_left htext)
    exact ⟨by rw [Expr.byName, Expr.byName, hc, ha, hb], hrests⟩
  · rw [Expr.IsPlain] at he
    obtain ⟨-, htext⟩ := hoperand he.1 hf (.questionMark (by decide)) (hrest'.mono (by omega))
      (by omega) htext
    exact absurd htext.symm (hends hrest')
  · rw [Expr.IsPlain] at hf
    obtain ⟨-, htext⟩ := hoperand he hf.1 (hrest.mono (by omega)) (.questionMark (by decide))
      hlength htext
    exact absurd htext (hends hrest)
  · exact hoperand he hf (hrest.mono (by omega)) (hrest'.mono (by omega)) hlength htext

/-- Every expression is read up to what follows it, at every place. -/
theorem reads_uniquely (n : Nat) : ∀ m ≤ 15, ReadsUniquely m n := by
  -- On the length of the text: every looser place reads the same text as the one above it, and only
  -- within a first operand, behind an operator or in a conditional does the text get shorter.
  induction n with
  | zero =>
    intro m _ e f rest rest' _ _ _ _ hlength
    exact absurd hlength (Nat.not_lt_zero _)
  | succ n ih =>
    intro m hm
    by_cases h : m ≤ 3
    · exact whole_reads_uniquely ih h
    · exact operand_reads_uniquely ih (by omega)

/-- Expressions that print the same are the same, but for what is known of their variables besides
the names. -/
theorem byName_eq_of_text_eq (he : e.IsPlain) (hf : f.IsPlain) (htext : e.text = f.text) :
    e.byName = f.byName := by
  have htext : e.spelling 0 ++ [] = f.spelling 0 ++ [] := by
    rw [spelling_of_le (Nat.zero_le _), spelling_of_le (Nat.zero_le _), htext]
  exact (reads_uniquely _ 0 (by decide) he hf .nil .nil (Nat.lt_succ_self _) htext).1

/-- The text does not tell a parameter from a local variable of its name. -/
theorem byName_eq_of_text_eq_difference :
    (Expr.binary .minus (.ofSymbol { name := "a" }) (.binary .minus (.ofSymbol { name := "b" })
      (.int 1 .int))).byName =
    (Expr.binary .minus (.ofSymbol { name := "a", parameter := some 0 }) (.binary .minus
      (.ofSymbol { name := "b", description := some "local" }) (.int 1 .int))).byName :=
  byName_eq_of_text_eq
    (by simp [Expr.ofSymbol, Expr.IsPlain, Lval.IsPlain, Offset.IsPlain, Text.isIdentifier])
    (by simp [Expr.ofSymbol, Expr.IsPlain, Lval.IsPlain, Offset.IsPlain, Text.isIdentifier])
    (by simp [Expr.ofSymbol, Expr.text, Lval.text, Offset.text, Expr.precedence])

end FactLift.C
