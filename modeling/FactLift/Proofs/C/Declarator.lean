import FactLift.Proofs.C.Spelling
import FactLift.Proofs.Text.Integer

/-! Printed declarations are read in one way.

A declaration is a base type and a declarator: the name, with a sign or a suffix around it for every
pointer, array and function on the way to the base. The declarator and the base determine the type
(`type_declarator`), so it is the declarator that has to be read. It is signs, then a name or a
declarator in parentheses, then suffixes; each of these shows in its first character. The parameters
of a function are declarations again, shorter ones: `type_eq_of_declare_eq`. -/

namespace FactLift.C

/-- A type made of `void`, integers, pointers, arrays that are not sized or sized by a number, and
functions without a list of parameters or with a list of named ones. -/
inductive Ty.IsDeclarable : Ty → Prop
  | void : IsDeclarable .void
  | int (k : IntKind) : IsDeclarable (.int k)
  | pointer {t : Ty} : t.IsDeclarable → IsDeclarable (.pointer t)
  | unsized {t : Ty} : t.IsDeclarable → IsDeclarable (.array t none)
  | sized {t : Ty} {v : Int64} : t.IsDeclarable → 0 ≤ v →
    IsDeclarable (.array t (some (.int v .int)))
  | unlisted {t : Ty} : t.IsDeclarable → IsDeclarable (.function t none false)
  | listed {t : Ty} {params : List Param} : t.IsDeclarable →
    (∀ p ∈ params, Text.isIdentifier p.name) → (∀ p ∈ params, p.type.IsDeclarable) →
    IsDeclarable (.function t (some params) false)

/-! ### Declarators -/

/-- What stands behind a name. -/
inductive Suffix where
  | array (length : Option Expr)
  | function (params : Option (List Param))

/-- A name with what its type puts around it. -/
inductive Declarator where
  | name (text : String)
  | pointer (d : Declarator)
  | suffixed (d : Declarator) (s : Suffix)

def Suffix.text : Suffix → String
  | .array length => "[" ++ lengthText length ++ "]"
  | .function params => "(" ++ paramsText (paramTexts? params) false ++ ")"

namespace Declarator

mutual

def text : Declarator → String
  | .name text => text
  | .pointer d => "*" ++ d.text
  | .suffixed d s => d.grouped ++ s.text

/-- The text of a declarator in front of a suffix: a pointer stands in parentheses there. -/
def grouped : Declarator → String
  | .name text => text
  | .pointer d => "(*" ++ d.text ++ ")"
  | .suffixed d s => d.grouped ++ s.text

end

/-- The name that is declared. -/
def declared : Declarator → String
  | .name text => text
  | .pointer d => d.declared
  | .suffixed d _ => d.declared

/-- The type of the name, from the type of the whole declarator. -/
def type : Declarator → Ty → Ty
  | .name _, t => t
  | .pointer d, t => d.type (.pointer t)
  | .suffixed d (.array length), t => d.type (.array t length)
  | .suffixed d (.function params), t => d.type (.function t params false)

def head : Declarator → Declarator
  | .suffixed d _ => d.head
  | d => d

def suffixes : Declarator → List Suffix
  | .suffixed d s => d.suffixes ++ [s]
  | _ => []

theorem foldl_suffixes (d : Declarator) : d.suffixes.foldl suffixed d.head = d := by
  induction d with
  | name | pointer => rfl
  | suffixed d s ih => rw [suffixes, head, List.foldl_append, ih, List.foldl_cons, List.foldl_nil]

theorem toList_grouped (d : Declarator) :
    d.grouped.toList = d.head.grouped.toList ++ d.suffixes.flatMap (·.text.toList) := by
  induction d with
  | name | pointer => simp [head, suffixes]
  | suffixed d s ih => simp only [grouped, head, suffixes, String.toList_append, ih,
      List.flatMap_append, List.flatMap_singleton, List.append_assoc]

/-- Only a pointer is written in another way in front of a suffix. -/
theorem text_or_pointer (d : Declarator) : d.text = d.grouped ∨ ∃ e, d = .pointer e := by
  cases d with
  | name => exact .inl (by rw [text, grouped])
  | pointer e => exact .inr ⟨e, rfl⟩
  | suffixed => exact .inl (by rw [text, grouped])

end Declarator

namespace Ty

/-- The type that everything else stands around. -/
def base : Ty → Ty
  | .pointer t => t.base
  | .array t _ => t.base
  | .function t _ _ => t.base
  | t => t

/-- What the type puts around a declarator. -/
def declarator : Ty → Declarator → Declarator
  | .pointer t, d => t.declarator (.pointer d)
  | .array t length, d => t.declarator (.suffixed d (.array length))
  | .function t params _, d => t.declarator (.suffixed d (.function params))
  | _, d => d

/-- The text of a declarator where the type is put around it next. -/
def enclosed (t : Ty) (d : Declarator) : String :=
  match t with
  | .array _ _ | .function _ _ _ => d.grouped
  | _ => d.text

end Ty

/-- A type that puts nothing around a name. -/
inductive Ty.IsBase : Ty → Prop
  | void : IsBase .void
  | int (k : IntKind) : IsBase (.int k)

/-- A suffix of these types. -/
inductive Suffix.IsPlain : Suffix → Prop
  | unsized : IsPlain (.array none)
  | sized {v : Int64} : 0 ≤ v → IsPlain (.array (some (.int v .int)))
  | unlisted : IsPlain (.function none)
  | listed {params : List Param} :
    (∀ p ∈ params, Text.isIdentifier p.name ∧ p.type.IsDeclarable) →
    IsPlain (.function (some params))

/-- A declarator of these types. -/
inductive Declarator.IsPlain : Declarator → Prop
  | name {text : String} : Text.isIdentifier text → IsPlain (.name text)
  | pointer {d : Declarator} : d.IsPlain → IsPlain (.pointer d)
  | suffixed {d : Declarator} {s : Suffix} : d.IsPlain → s.IsPlain → IsPlain (.suffixed d s)

variable {t t' : Ty} {d d' : Declarator} {rest rest' : List Char} {n : Nat}

theorem isBase_base (h : t.IsDeclarable) : t.base.IsBase := by
  induction h with
  | void => exact .void
  | int k => exact .int k
  | pointer _ ih | unsized _ ih | sized _ _ ih | unlisted _ ih => exact ih
  | listed _ _ _ ih => exact ih

theorem isPlain_declarator (h : t.IsDeclarable) (hd : d.IsPlain) : (t.declarator d).IsPlain := by
  induction h generalizing d with
  | void | int => exact hd
  | pointer _ ih => exact ih (.pointer hd)
  | unsized _ ih => exact ih (.suffixed hd .unsized)
  | sized _ hv ih => exact ih (.suffixed hd (.sized hv))
  | unlisted _ ih => exact ih (.suffixed hd .unlisted)
  | listed _ hnames htypes ih =>
    exact ih (.suffixed hd (.listed fun p hp => ⟨hnames p hp, htypes p hp⟩))

/-- **The type from its base and its declarator.** -/
theorem type_declarator (h : t.IsDeclarable) (d : Declarator) :
    (t.declarator d).type t.base = d.type t := by
  induction h generalizing d with
  | void | int => rfl
  | pointer _ ih | unsized _ ih | sized _ _ ih | unlisted _ ih => exact ih _
  | listed _ _ _ ih => exact ih _

theorem declared_declarator (h : t.IsDeclarable) (d : Declarator) :
    (t.declarator d).declared = d.declared := by
  induction h generalizing d with
  | void | int => rfl
  | pointer _ ih | unsized _ ih | sized _ _ ih | unlisted _ ih => exact ih _
  | listed _ _ _ ih => exact ih _

theorem enclosed_name (t : Ty) (name : String) : t.enclosed (.name name) = name := by
  cases t <;> simp [Ty.enclosed, Declarator.text, Declarator.grouped]

theorem enclosed_pointer (t : Ty) (d : Declarator) :
    pointerDeclarator t d.text = t.enclosed (.pointer d) := by
  cases t <;> simp [pointerDeclarator, Ty.enclosed, Declarator.text, Declarator.grouped]

theorem enclosed_suffixed (t : Ty) (d : Declarator) (s : Suffix) :
    t.enclosed (.suffixed d s) = d.grouped ++ s.text := by
  cases t <;> simp [Ty.enclosed, Declarator.text, Declarator.grouped]

theorem toList_grouped_ne_nil (hd : d.IsPlain) : d.grouped.toList ≠ [] := by
  induction hd with
  | @name text h =>
    obtain ⟨-, c, tail, htext, -⟩ := Text.isIdentifier_word h
    simp [Declarator.grouped, htext]
  | pointer => simp [Declarator.grouped]
  | suffixed _ _ ih => simp [Declarator.grouped, ih]

theorem text_ne_empty (hd : d.IsPlain) : d.text ≠ "" := by
  rcases d.text_or_pointer with h | ⟨e, rfl⟩
  · rw [h]
    exact fun hempty => toList_grouped_ne_nil hd (by rw [hempty]; rfl)
  · simp [Declarator.text]

theorem declared_text (hd : d.IsPlain) (typeName : String) :
    declared typeName d.text = typeName ++ " " ++ d.text := by
  rw [declared, if_neg (by simpa using text_ne_empty hd)]

theorem declare_array (t : Ty) (length : Option Expr) (d : Declarator) :
    (Ty.array t length).declare d.grouped =
      t.declare (t.enclosed (.suffixed d (.array length))) := by
  rw [Ty.declare, enclosed_suffixed, Suffix.text, String.append_assoc, String.append_assoc,
    String.append_assoc]

theorem declare_function (t : Ty) (params : Option (List Param)) (d : Declarator) :
    (Ty.function t params false).declare d.grouped =
      t.declare (t.enclosed (.suffixed d (.function params))) := by
  rw [Ty.declare, enclosed_suffixed, Suffix.text, String.append_assoc, String.append_assoc,
    String.append_assoc]

/-- **Declarations.** A declaration is the text of a base type and that of a declarator. -/
theorem declare_eq (h : t.IsDeclarable) (hd : d.IsPlain) :
    t.declare (t.enclosed d) = t.base.text ++ " " ++ (t.declarator d).text := by
  induction h generalizing d with
  | void =>
    show Ty.void.declare d.text = Ty.void.text ++ " " ++ d.text
    rw [Ty.text, Ty.declare, Ty.declare, declared_text hd]
    rfl
  | int k =>
    show (Ty.int k).declare d.text = (Ty.int k).text ++ " " ++ d.text
    rw [Ty.text, Ty.declare, Ty.declare, declared_text hd]
    rfl
  | @pointer t _ ih =>
    show t.pointer.declare d.text = _
    rw [Ty.declare, enclosed_pointer]
    exact ih (.pointer hd)
  | unsized _ ih => exact (declare_array ..).trans (ih (.suffixed hd .unsized))
  | sized _ hv ih => exact (declare_array ..).trans (ih (.suffixed hd (.sized hv)))
  | unlisted _ ih => exact (declare_function ..).trans (ih (.suffixed hd .unlisted))
  | listed _ hnames htypes ih =>
    exact (declare_function ..).trans
      (ih (.suffixed hd (.listed fun p hp => ⟨hnames p hp, htypes p hp⟩)))

/-- A declaration of a name. -/
theorem toList_declare (h : t.IsDeclarable) {name : String} (hname : Text.isIdentifier name) :
    (t.declare name).toList =
      t.base.text.toList ++ ' ' :: (t.declarator (.name name)).text.toList := by
  have hdeclare := declare_eq h (.name hname)
  rw [enclosed_name] at hdeclare
  simp [hdeclare]

/-! ### What stands behind -/

/-- What may stand behind a declarator: nothing, or the end of a parameter. -/
def Closes (rest : List Char) : Prop :=
  ∀ c ∈ rest.head?, c = ')' ∨ c = ','

/-- What may stand behind a name: a suffix too. -/
def Breaks (rest : List Char) : Prop :=
  ∀ c ∈ rest.head?, c = ')' ∨ c = ',' ∨ c = '[' ∨ c = '('

theorem Closes.breaks (h : Closes rest) : Breaks rest :=
  fun c hc => (h c hc).imp_right .inl

theorem Breaks.word (h : Breaks rest) : ∀ c ∈ rest.head?, Text.isWordChar c = false := by
  intro c hc
  rcases h c hc with rfl | rfl | rfl | rfl <;> rfl

theorem breaks_suffix (s : Suffix) (rest : List Char) : Breaks (s.text.toList ++ rest) := by
  cases s <;> simp [Suffix.text, Breaks]

theorem breaks_suffixes (ss : List Suffix) (h : Closes rest) :
    Breaks (ss.flatMap (·.text.toList) ++ rest) := by
  cases ss with
  | nil => exact h.breaks
  | cons s ss =>
    rw [List.flatMap_cons, List.append_assoc]
    exact breaks_suffix s _

/-! ### Base types -/

def baseNames : List String :=
  "void" :: IntKind.all.map IntKind.name

theorem text_void : Ty.void.text = "void" := by
  rw [Ty.text, Ty.declare]
  rfl

theorem text_int (k : IntKind) : (Ty.int k).text = k.name := by
  rw [Ty.text, Ty.declare]
  rfl

theorem text_mem_baseNames (h : t.IsBase) : t.text ∈ baseNames := by
  cases h with
  | void => simp [text_void, baseNames]
  | int k => cases k <;> simp [text_int, baseNames, IntKind.all]

theorem name_inj {k k' : IntKind} (h : k.name = k'.name) : k = k' := by
  have hfind (k : IntKind) : IntKind.all.find? (fun k' => k'.name == k.name) = some k := by
    cases k <;> decide
  have hfound := hfind k
  rw [h, hfind k'] at hfound
  exact (Option.some.inj hfound).symm

theorem text_base_inj (h : t.IsBase) (h' : t'.IsBase) (htext : t.text = t'.text) : t = t' := by
  have hvoid (k : IntKind) : k.name ≠ "void" := by cases k <;> decide
  cases h <;> cases h' <;> simp only [text_void, text_int] at htext
  case void.void => rfl
  case void.int k => exact absurd htext.symm (hvoid k)
  case int.void k => exact absurd htext (hvoid k)
  case int.int k k' => rw [name_inj htext]

/-- Where one base type goes on like another, the next word is `long`. -/
theorem baseNames_start : ∀ b ∈ baseNames, ∀ b' ∈ baseNames,
    b.toList ++ [' '] <+: b'.toList ++ [' '] →
      b = b' ∨ b'.toList ++ [' '] = b.toList ++ ' ' :: "long ".toList := by
  decide +kernel

/-- A declarator does not start with a word and a space, so it does not go on like a base type. -/
theorem grouped_not_spaced (hd : d.IsPlain) (hrest : Breaks rest) {word tail : List Char}
    (hword : ∀ c ∈ word, Text.isWordChar c) (hne : word ≠ []) :
    d.grouped.toList ++ rest ≠ word ++ ' ' :: tail := by
  intro htext
  induction hd generalizing rest with
  | @name text h =>
    obtain ⟨hname, -⟩ := Text.isIdentifier_word h
    have hspace : ∀ c ∈ (' ' :: tail).head?, Text.isWordChar c = false := by
      simp [Text.isWordChar]
    obtain ⟨-, rfl⟩ := Text.cut_at_end_inj hname hword hrest.word hspace
      (by simpa [Declarator.grouped] using htext)
    simpa using hrest ' ' rfl
  | pointer =>
    obtain ⟨c, word, rfl⟩ := List.exists_cons_of_ne_nil hne
    have hc : '(' = c := by
      simpa [Declarator.grouped] using congrArg List.head? htext
    subst hc
    exact absurd (hword '(' List.mem_cons_self) (by decide)
  | @suffixed d s _ _ ih =>
    exact ih (breaks_suffix s rest) (by simpa [Declarator.grouped] using htext)

theorem text_not_long (hd : d.IsPlain) (hrest : Breaks rest) (tail : List Char) :
    d.text.toList ++ rest ≠ "long ".toList ++ tail := by
  rcases d.text_or_pointer with h | ⟨e, rfl⟩
  · have hword : ∀ c ∈ "long".toList, Text.isWordChar c := List.all_eq_true.mp (by decide)
    rw [h]
    exact grouped_not_spaced hd hrest hword (by decide)
  · simp [Declarator.text]

/-- A base type that another one starts with, where declarators stand behind both. -/
theorem text_base_eq_of_start (h : t.IsBase) (h' : t'.IsBase) (hd : d.IsPlain)
    (hrest : Breaks rest) {tail : List Char}
    (hle : t.text.toList ++ [' '] <+: t'.text.toList ++ [' '])
    (htext : t.text.toList ++ ' ' :: (d.text.toList ++ rest) = t'.text.toList ++ ' ' :: tail) :
    t.text = t'.text := by
  refine (baseNames_start _ (text_mem_baseNames h) _ (text_mem_baseNames h') hle).resolve_right ?_
  intro hlong
  have hgoes : t'.text.toList ++ ' ' :: tail =
      t.text.toList ++ ' ' :: ("long ".toList ++ tail) := by
    rw [← List.singleton_append, ← List.append_assoc, hlong, List.append_assoc, List.cons_append]
  rw [hgoes] at htext
  exact text_not_long hd hrest tail (List.cons.inj (List.append_cancel_left htext)).2

/-- A base type is read up to the declarator behind it. -/
theorem base_reads_uniquely (h : t.IsBase) (h' : t'.IsBase) (hd : d.IsPlain) (hd' : d'.IsPlain)
    (hrest : Breaks rest) (hrest' : Breaks rest')
    (htext : t.text.toList ++ ' ' :: (d.text.toList ++ rest) =
      t'.text.toList ++ ' ' :: (d'.text.toList ++ rest')) :
    t = t' ∧ d.text.toList ++ rest = d'.text.toList ++ rest' := by
  have hstarts (t : Ty) (tail : List Char) :
      t.text.toList ++ [' '] <+: t.text.toList ++ ' ' :: tail :=
    ⟨tail, by simp⟩
  have hbase : t = t' := by
    refine text_base_inj h h' ?_
    rcases List.prefix_or_prefix_of_prefix (htext ▸ hstarts t _) (hstarts t' _) with hle | hle
    · exact text_base_eq_of_start h h' hd hrest hle htext
    · exact (text_base_eq_of_start h' h hd' hrest' hle htext.symm).symm
  subst hbase
  exact ⟨rfl, (List.cons.inj (List.append_cancel_left htext)).2⟩

/-! ### Declarations in declarations -/

/-- Declarators of less than `n` characters are determined by a text that they start, as is what
stands behind them. -/
def DeclaratorsReadUniquely (n : Nat) : Prop :=
  ∀ {d d' : Declarator} {rest rest' : List Char}, d.IsPlain → d'.IsPlain → Closes rest →
    Closes rest' → d.text.toList.length < n → d.text.toList ++ rest = d'.text.toList ++ rest' →
    d = d' ∧ rest = rest'

/-- A declaration is read up to what stands behind it. -/
theorem declaration_reads_uniquely (hread : DeclaratorsReadUniquely n) (h : t.IsDeclarable)
    (h' : t'.IsDeclarable) {name name' : String} (hname : Text.isIdentifier name)
    (hname' : Text.isIdentifier name') (hrest : Closes rest) (hrest' : Closes rest')
    (hlength : (t.declare name).toList.length ≤ n)
    (htext : (t.declare name).toList ++ rest = (t'.declare name').toList ++ rest') :
    t = t' ∧ name = name' ∧ rest = rest' := by
  rw [toList_declare h hname, toList_declare h' hname', List.append_assoc, List.append_assoc,
    List.cons_append, List.cons_append] at htext
  rw [toList_declare h hname, List.length_append, List.length_cons] at hlength
  have hd := isPlain_declarator h (.name hname)
  have hd' := isPlain_declarator h' (.name hname')
  obtain ⟨hbase, htext⟩ := base_reads_uniquely (isBase_base h) (isBase_base h') hd hd' hrest.breaks
    hrest'.breaks htext
  obtain ⟨hdeclarator, hrests⟩ := hread hd hd' hrest hrest' (by omega) htext
  refine ⟨?_, ?_, hrests⟩
  · have htype := type_declarator h (.name name)
    rw [hdeclarator, hbase, type_declarator h'] at htype
    exact htype.symm
  · have hdeclared := declared_declarator h (.name name)
    rw [hdeclarator, declared_declarator h'] at hdeclared
    exact hdeclared.symm

/-- The parameters behind the first one. -/
def moreParams (params : List Param) : List Char :=
  params.flatMap fun p => ',' :: ' ' :: (p.type.declare p.name).toList

theorem toList_paramsText_cons (p : Param) (params : List Param) :
    (paramsText (paramTexts? (some (p :: params))) false).toList =
      (p.type.declare p.name).toList ++ moreParams params := by
  show (", ".intercalate (paramTexts (p :: params))).toList = _
  have htext (p : Param) : paramText p = p.type.declare p.name := by
    obtain ⟨name, t⟩ := p
    rw [paramText]
  induction params generalizing p with
  | nil => simp [paramTexts, htext, moreParams]
  | cons q params ih =>
    rw [paramTexts, paramTexts, String.intercalate_cons_cons, ← paramTexts]
    simp [ih q, htext, moreParams]

theorem closes_moreParams (params : List Param) (rest : List Char) :
    Closes (moreParams params ++ ')' :: rest) := by
  cases params <;> simp [Closes, moreParams]

/-- Parameters are read up to the parenthesis behind them. -/
theorem moreParams_read_uniquely (hread : DeclaratorsReadUniquely n) {params params' : List Param}
    (h : ∀ p ∈ params, Text.isIdentifier p.name ∧ p.type.IsDeclarable)
    (h' : ∀ p ∈ params', Text.isIdentifier p.name ∧ p.type.IsDeclarable)
    (hlength : (moreParams params).length ≤ n + 2)
    (htext : moreParams params ++ ')' :: rest = moreParams params' ++ ')' :: rest') :
    params = params' ∧ rest = rest' := by
  induction params generalizing params' with
  | nil => cases params' with
    | nil => exact ⟨rfl, by simpa [moreParams] using htext⟩
    | cons => simp [moreParams] at htext
  | cons p params ih => cases params' with
    | nil => simp [moreParams] at htext
    | cons p' params' =>
      obtain ⟨hp, hparams⟩ := List.forall_mem_cons.mp h
      obtain ⟨hp', hparams'⟩ := List.forall_mem_cons.mp h'
      have hcons (p : Param) (params : List Param) : moreParams (p :: params) =
          ',' :: ' ' :: ((p.type.declare p.name).toList ++ moreParams params) := rfl
      simp only [hcons, List.length_cons, List.length_append] at hlength
      simp only [hcons, List.cons_append, List.append_assoc, List.cons.injEq, true_and] at htext
      obtain ⟨htype, hname, htext⟩ := declaration_reads_uniquely hread hp.2 hp'.2 hp.1 hp'.1
        (closes_moreParams params rest) (closes_moreParams params' rest') (by omega) htext
      obtain ⟨rfl, hrests⟩ := ih hparams hparams' (by omega) htext
      obtain ⟨name, type⟩ := p
      obtain ⟨name', type'⟩ := p'
      exact ⟨by rw [show name = name' from hname, show type = type' from htype], hrests⟩

/-- An empty or a missing list of parameters does not go on like a declaration. -/
theorem closed_word_ne_declaration (h : t.IsBase) {word tail : List Char}
    (hword : ∀ c ∈ word, Text.isWordChar c) :
    word ++ ')' :: rest ≠ t.text.toList ++ ' ' :: tail := by
  have hspaces : ∀ b ∈ baseNames, b.toList.all fun c => Text.isWordChar c || c == ' ' := by decide
  have hleft : (word ++ ')' :: rest).find? (!Text.isWordChar ·) = some ')' := by
    rw [List.find?_append, List.find?_eq_none.mpr (by simpa using hword)]
    rfl
  have hright : (t.text.toList ++ ' ' :: tail).find? (!Text.isWordChar ·) = some ' ' := by
    rw [List.find?_append]
    cases hfind : t.text.toList.find? (!Text.isWordChar ·) with
    | none => rfl
    | some c =>
      have hnoWord : Text.isWordChar c = false := by simpa using List.find?_some hfind
      have hc := List.all_eq_true.mp (hspaces _ (text_mem_baseNames h)) c
        (List.mem_of_find?_eq_some hfind)
      obtain rfl : c = ' ' := by simpa [hnoWord] using hc
      rfl
  intro htext
  rw [htext, hright] at hleft
  exact absurd hleft (by decide)

/-- A list of parameters is read up to the parenthesis behind it. -/
theorem params_read_uniquely (hread : DeclaratorsReadUniquely n)
    {params params' : Option (List Param)} (h : (Suffix.function params).IsPlain)
    (h' : (Suffix.function params').IsPlain)
    (hlength : (paramsText (paramTexts? params) false).toList.length ≤ n)
    (htext : (paramsText (paramTexts? params) false).toList ++ ')' :: rest =
      (paramsText (paramTexts? params') false).toList ++ ')' :: rest') :
    params = params' ∧ rest = rest' := by
  have hnone : (paramsText (paramTexts? none) false).toList = [] := by
    simp [paramsText, paramTexts?]
  have hempty : (paramsText (paramTexts? (some [])) false).toList = "void".toList := by
    simp [paramsText, paramTexts?, paramTexts]
  -- Without parameters a word stands there, or nothing.
  have hlisted {p : Param} {more : List Param} {word rest rest' : List Char}
      (h : (Suffix.function (some (p :: more))).IsPlain) (hword : ∀ c ∈ word, Text.isWordChar c) :
      word ++ ')' :: rest ≠
        (paramsText (paramTexts? (some (p :: more))) false).toList ++ ')' :: rest' := by
    cases h with
    | listed hparams =>
      obtain ⟨hname, htype⟩ := hparams p List.mem_cons_self
      rw [toList_paramsText_cons, toList_declare htype hname, List.append_assoc, List.append_assoc,
        List.cons_append]
      exact closed_word_ne_declaration (isBase_base htype) hword
  have hnoWord : ∀ c ∈ ([] : List Char), Text.isWordChar c := by simp
  have hvoid : ∀ c ∈ "void".toList, Text.isWordChar c := List.all_eq_true.mp (by decide)
  rcases params with _ | _ | ⟨p, more⟩ <;> rcases params' with _ | _ | ⟨p', more'⟩
  case none.none => simpa [hnone] using htext
  case none.some.nil => simp [hnone, hempty] at htext
  case none.some.cons =>
    rw [hnone] at htext
    exact absurd htext (hlisted h' hnoWord)
  case some.nil.none => simp [hnone, hempty] at htext
  case some.nil.some.nil => simpa [hempty] using htext
  case some.nil.some.cons =>
    rw [hempty] at htext
    exact absurd htext (hlisted h' hvoid)
  case some.cons.none =>
    rw [hnone] at htext
    exact absurd htext.symm (hlisted h hnoWord)
  case some.cons.some.nil =>
    rw [hempty] at htext
    exact absurd htext.symm (hlisted h hvoid)
  case some.cons.some.cons =>
    cases h with
    | listed hparams => cases h' with
      | listed hparams' =>
        have hmore (p : Param) (params : List Param) : moreParams (p :: params) =
            ',' :: ' ' :: (paramsText (paramTexts? (some (p :: params))) false).toList := by
          rw [toList_paramsText_cons]
          rfl
        obtain ⟨hparams, hrests⟩ := moreParams_read_uniquely hread hparams hparams'
          (by simpa [hmore] using hlength) (by simpa [hmore] using htext)
        exact ⟨congrArg some hparams, hrests⟩

/-! ### Lengths of arrays -/

theorem toList_lengthText_sized (v : Int64) :
    (lengthText (some (.int v .int))).toList = (toString v.toInt).toList := by
  rw [lengthText, toList_text_int]

/-- The length of an array is a word. -/
theorem lengthText_word {length : Option Expr} (h : (Suffix.array length).IsPlain) :
    ∀ c ∈ (lengthText length).toList, Text.isWordChar c := by
  cases h with
  | unsized => simp [lengthText]
  | sized hv =>
    rw [toList_lengthText_sized]
    exact (Text.toString_word (Int64.le_iff_toInt_le.mp hv)).1

theorem lengthText_inj {length length' : Option Expr} (h : (Suffix.array length).IsPlain)
    (h' : (Suffix.array length').IsPlain)
    (htext : (lengthText length).toList = (lengthText length').toList) : length = length' := by
  have hsized {v : Int64} (hv : 0 ≤ v) : (lengthText (some (.int v .int))).toList ≠ [] := by
    obtain ⟨c, tail, hdigits, -⟩ := (Text.toString_word (Int64.le_iff_toInt_le.mp hv)).2
    rw [toList_lengthText_sized, hdigits]
    exact List.cons_ne_nil c tail
  cases h with
  | unsized => cases h' with
    | unsized => rfl
    | sized hv => exact absurd htext.symm (hsized hv)
  | @sized v hv => cases h' with
    | unsized => exact absurd htext (hsized hv)
    | @sized v' hv' =>
      rw [toList_lengthText_sized, toList_lengthText_sized] at htext
      have hread := Text.parseInt64?_toString v
      rw [String.toList_injective htext, Text.parseInt64?_toString v'] at hread
      rw [Option.some.inj hread]

/-! ### Suffixes -/

/-- A suffix is read up to what stands behind it. -/
theorem suffix_reads_uniquely (hread : DeclaratorsReadUniquely n) {s s' : Suffix} (h : s.IsPlain)
    (h' : s'.IsPlain) (hlength : s.text.toList.length ≤ n)
    (htext : s.text.toList ++ rest = s'.text.toList ++ rest') : s = s' ∧ rest = rest' := by
  cases s with
  | array length => cases s' with
    | array length' =>
      have htext : (lengthText length).toList ++ ']' :: rest =
          (lengthText length').toList ++ ']' :: rest' := by
        simpa [Suffix.text] using htext
      obtain ⟨hlengths, hrests⟩ := Text.cut_at_end_inj (lengthText_word h) (lengthText_word h')
        (by simp [Text.isWordChar]) (by simp [Text.isWordChar]) htext
      exact ⟨by rw [lengthText_inj h h' hlengths], (List.cons.inj hrests).2⟩
    | function => simp [Suffix.text] at htext
  | function params => cases s' with
    | array => simp [Suffix.text] at htext
    | function params' =>
      have htext : (paramsText (paramTexts? params) false).toList ++ ')' :: rest =
          (paramsText (paramTexts? params') false).toList ++ ')' :: rest' := by
        simpa [Suffix.text] using htext
      simp only [Suffix.text, String.toList_append, List.length_append] at hlength
      obtain ⟨rfl, hrests⟩ := params_read_uniquely hread h h' (by omega) htext
      exact ⟨rfl, hrests⟩

theorem not_closes_suffix (s : Suffix) (rest : List Char) : ¬ Closes (s.text.toList ++ rest) := by
  cases s <;> simp [Suffix.text, Closes]

/-- Suffixes are read up to what stands behind them. -/
theorem suffixes_read_uniquely (hread : DeclaratorsReadUniquely n) {ss ss' : List Suffix}
    (h : ∀ s ∈ ss, s.IsPlain) (h' : ∀ s ∈ ss', s.IsPlain) (hrest : Closes rest)
    (hrest' : Closes rest') (hlength : (ss.flatMap (·.text.toList)).length ≤ n)
    (htext : ss.flatMap (·.text.toList) ++ rest = ss'.flatMap (·.text.toList) ++ rest') :
    ss = ss' ∧ rest = rest' := by
  induction ss generalizing ss' with
  | nil => cases ss' with
    | nil => exact ⟨rfl, htext⟩
    | cons s' ss' =>
      rw [List.flatMap_cons, List.append_assoc, List.flatMap_nil, List.nil_append] at htext
      exact absurd (htext ▸ hrest) (not_closes_suffix s' _)
  | cons s ss ih => cases ss' with
    | nil =>
      rw [List.flatMap_cons, List.append_assoc, List.flatMap_nil, List.nil_append] at htext
      exact absurd (htext ▸ hrest') (not_closes_suffix s _)
    | cons s' ss' =>
      obtain ⟨hs, hss⟩ := List.forall_mem_cons.mp h
      obtain ⟨hs', hss'⟩ := List.forall_mem_cons.mp h'
      rw [List.flatMap_cons, List.length_append] at hlength
      rw [List.flatMap_cons, List.flatMap_cons, List.append_assoc, List.append_assoc] at htext
      obtain ⟨rfl, hmore⟩ := suffix_reads_uniquely hread hs hs' (by omega) htext
      obtain ⟨rfl, hrests⟩ := ih hss hss' (by omega) hmore
      exact ⟨rfl, hrests⟩

/-! ### Declarations are read in one way -/

theorem isPlain_head (h : d.IsPlain) : d.head.IsPlain := by
  induction h with
  | name h => exact .name h
  | pointer h => exact .pointer h
  | suffixed _ _ ih => exact ih

theorem isPlain_suffixes (h : d.IsPlain) : ∀ s ∈ d.suffixes, s.IsPlain := by
  induction h with
  | name | pointer => simp [Declarator.suffixes]
  | suffixed _ hs ih => simpa [Declarator.suffixes, or_imp, forall_and, hs] using ih

/-- What stands in front of the suffixes is a name or a pointer. -/
theorem head_cases (d : Declarator) : (∃ name, d.head = .name name) ∨ ∃ e, d.head = .pointer e := by
  induction d with
  | name text => exact .inl ⟨text, rfl⟩
  | pointer d => exact .inr ⟨d, rfl⟩
  | suffixed d s ih => exact ih

/-- What stands in front of the suffixes is read up to them. -/
theorem head_reads_uniquely (hread : DeclaratorsReadUniquely n) (h : d.IsPlain) (h' : d'.IsPlain)
    (hrest : Breaks rest) (hrest' : Breaks rest') (hlength : d.head.grouped.toList.length ≤ n)
    (htext : d.head.grouped.toList ++ rest = d'.head.grouped.toList ++ rest') :
    d.head = d'.head ∧ rest = rest' := by
  have h := isPlain_head h
  have h' := isPlain_head h'
  have hne {name : String} {e : Declarator} {rest rest' : List Char}
      (h : (Declarator.name name).IsPlain) :
      name.toList ++ rest ≠ ("(*" ++ e.text ++ ")").toList ++ rest' := by
    cases h with
    | name hname => simpa using Text.identifier_append_ne hname (c := '(') rfl rest _
  rcases head_cases d with ⟨name, hd⟩ | ⟨e, hd⟩ <;>
    rcases head_cases d' with ⟨name', hd'⟩ | ⟨e', hd'⟩ <;>
    simp only [hd, hd', Declarator.grouped] at h h' hlength htext ⊢
  · cases h with
    | name hname => cases h' with
      | name hname' =>
        obtain ⟨hnames, hrests⟩ := Text.cut_at_end_inj (Text.isIdentifier_word hname).1
          (Text.isIdentifier_word hname').1 hrest.word hrest'.word htext
        exact ⟨by rw [String.toList_injective hnames], hrests⟩
  · exact absurd htext (hne h)
  · exact absurd htext.symm (hne h')
  · simp only [String.toList_append, List.length_append] at hlength
    cases h with
    | pointer he => cases h' with
      | pointer he' =>
        have htext : e.text.toList ++ ')' :: rest = e'.text.toList ++ ')' :: rest' := by
          simpa using htext
        obtain ⟨rfl, hrests⟩ := hread he he' (by simp [Closes]) (by simp [Closes])
          (by simp at hlength; omega) htext
        exact ⟨rfl, (List.cons.inj hrests).2⟩

/-- Only a pointer starts with its sign. -/
theorem grouped_ne_sign (h : d.IsPlain) (rest tail : List Char) :
    d.grouped.toList ++ rest ≠ '*' :: tail := by
  induction h generalizing rest with
  | name h => simpa [Declarator.grouped] using Text.identifier_append_ne h (c := '*') rfl rest tail
  | pointer => simp [Declarator.grouped]
  | @suffixed d s _ _ ih => simpa [Declarator.grouped] using ih (s.text.toList ++ rest)

/-- Declarators are read up to what stands behind them if shorter ones are. -/
theorem declarators_step (hread : DeclaratorsReadUniquely n) : DeclaratorsReadUniquely (n + 1) := by
  intro d d' rest rest' h h' hrest hrest' hlength htext
  rcases d.text_or_pointer with hd | ⟨e, rfl⟩ <;> rcases d'.text_or_pointer with hd' | ⟨e', rfl⟩
  · rw [hd, hd', d.toList_grouped, d'.toList_grouped, List.append_assoc, List.append_assoc] at htext
    rw [hd, d.toList_grouped, List.length_append] at hlength
    obtain ⟨hhead, hbehind⟩ := head_reads_uniquely hread h h' (breaks_suffixes _ hrest)
      (breaks_suffixes _ hrest') (by omega) htext
    obtain ⟨hsuffixes, hrests⟩ := suffixes_read_uniquely hread (isPlain_suffixes h)
      (isPlain_suffixes h') hrest hrest' (by omega) hbehind
    exact ⟨by rw [← d.foldl_suffixes, hhead, hsuffixes, d'.foldl_suffixes], hrests⟩
  · rw [hd, Declarator.text, String.toList_append] at htext
    exact absurd htext (grouped_ne_sign h _ _)
  · rw [hd', Declarator.text, String.toList_append] at htext
    exact absurd htext.symm (grouped_ne_sign h' _ _)
  · cases h with
    | pointer he => cases h' with
      | pointer he' =>
        simp only [Declarator.text, String.toList_append, List.length_append] at hlength htext
        obtain ⟨rfl, hrests⟩ := hread he he' hrest hrest' (by simp at hlength; omega)
          (by simpa using htext)
        exact ⟨rfl, hrests⟩

/-- Every declarator is read up to what stands behind it. -/
theorem declarators_read_uniquely (n : Nat) : DeclaratorsReadUniquely n := by
  -- On the length of the text: it gets shorter within a sign, parentheses or a list of parameters.
  induction n with
  | zero => exact fun _ _ _ _ hlength => absurd hlength (Nat.not_lt_zero _)
  | succ n ih => exact declarators_step ih

/-- **Declarations are read in one way.** Declarations with the same text declare the same name with
the same type; a keyword would do as a name. -/
theorem type_eq_of_declare_eq {name name' : String} (hname : Text.isIdentifier name)
    (hname' : Text.isIdentifier name') (ht : t.IsDeclarable) (ht' : t'.IsDeclarable)
    (htext : t.declare name = t'.declare name') : t = t' ∧ name = name' := by
  have hend : Closes [] := by simp [Closes]
  obtain ⟨htype, hnames, -⟩ := declaration_reads_uniquely (declarators_read_uniquely _) ht ht' hname
    hname' hend hend (Nat.le_refl _) (by rw [htext])
  exact ⟨htype, hnames⟩

/-- The type of `f` in `void (*(*f)[4])(char c)`. -/
def nestedType : Ty :=
  .pointer (.array (.pointer (.function .void (some [⟨"c", .int .char⟩]) false))
    (some (.int 4 .int)))

/-- The declarator in `void (*(*f)[4])(char c)`. -/
def nestedDeclarator : Declarator :=
  .suffixed (.pointer (.suffixed (.pointer (.name "f")) (.array (some (.int 4 .int)))))
    (.function (some [⟨"c", .int .char⟩]))

theorem type_eq_of_declare_eq_of_nested :
    nestedType = nestedDeclarator.type .void ∧ "f" = "f" := by
  have hdeclarable : nestedType.IsDeclarable :=
    .pointer (.sized (.pointer (.listed .void (by simp; decide) (by simpa using .int .char)))
      (by decide))
  exact type_eq_of_declare_eq (by decide) (by decide) hdeclarable hdeclarable rfl

end FactLift.C
