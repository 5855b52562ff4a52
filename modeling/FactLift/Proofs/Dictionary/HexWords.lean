import FactLift.Proofs.Dictionary.Mint

/-! Words of 64 bits in a dictionary.

Addresses and call sites are unsigned words. They are written in hexadecimal and read back as
signed integers (`integerTag_hex`), so the lower half of the range comes back and the upper half is
refused. One lemma for each record on the way from a word to the value around it says that the
decoder only passes this on; `minted_word_decode` puts them together, for whatever is minted or
loaded in between and afterwards. -/

namespace FactLift.Dictionary

open FactLift.Sym

/-- The error for a word that is no signed integer. -/
def unreadable (name : TableName) (index : Nat) (w : UInt64) : Error :=
  .malformed name.text index s!"not an integer: {Text.quote (Text.hex w.toNat)}"

variable {D : Dictionary} {i levels : Nat}

/-! ### Words in records -/

/-- A word is read back if it lies in the lower half of the range. -/
theorem integerTag_hex {c : Content} {n : Nat} {w : UInt64} (name : TableName)
    (h : c.tags[n]? = some (Text.hex w.toNat)) :
    integerTag ⟨i, c⟩ name.text n =
      if w.toNat < 2 ^ 63 then .ok (Int64.ofNat w.toNat) else .error (unreadable name i w) := by
  have htag : Record.tag ⟨i, c⟩ name.text n = .ok (Text.hex w.toNat) := Record.tag_eq_ok.mpr h
  by_cases hw : w.toNat < 2 ^ 63
  · simp only [if_pos hw, integerTag, htag, ok_bind, Text.parseInt64?_hex hw]
    rfl
  · simp only [if_neg hw, integerTag, htag, ok_bind, Text.parseInt64?_hex_of_le (Nat.not_lt.mp hw)]
    rfl

theorem exprAt_address {a : UInt64}
    (h : D.exprs.content? i = some ⟨["ga", Text.hex a.toNat], []⟩) :
    D.exprAt (levels + 1) i =
      if a.toNat < 2 ^ 63 then .ok (.const (.address a)) else .error (unreadable .exprs i a) := by
  have hword : integerTag ⟨i, ["ga", Text.hex a.toNat], []⟩ TableName.exprs.text 1 = _ :=
    integerTag_hex .exprs rfl
  simp only [exprAt, Table.get_of_content? h, ok_bind, Record.kind, Record.tags, List.headD_cons,
    hword]
  split
  · rw [ok_bind, toUInt64_ofNat_toNat]
    rfl
  · rfl

theorem fixedValueAt_returnValue {site : UInt64} {callee : Option String}
    (h : D.fixedValues.content? i = some ⟨["fr", Text.hex site.toNat] ++ callee.toList, []⟩) :
    D.fixedValueAt (levels + 1) i =
      if site.toNat < 2 ^ 63 then .ok (.returnValue site callee)
      else .error (unreadable .fixedValues i site) := by
  have hword : integerTag ⟨i, ["fr", Text.hex site.toNat] ++ callee.toList, []⟩
      TableName.fixedValues.text 1 = _ :=
    integerTag_hex .fixedValues rfl
  simp only [fixedValueAt, Table.get_of_content? h, ok_bind, Record.kind, Record.tags,
    List.cons_append, List.headD_cons] at hword ⊢
  rw [hword]
  split
  · rw [ok_bind, toUInt64_ofNat_toNat]
    cases callee <;> rfl
  · rfl

/-! ### What refers to them -/

/-- A meaning that refers to a fixed value is that value. -/
theorem meaningAt_fixed {j : Nat} (h : D.meanings.content? i = some ⟨["a"], [reference j]⟩)
    (hj : j < 2 ^ 63) :
    D.meaningAt (levels + 1) i = Meaning.fixed <$> D.fixedValueAt levels j := by
  have hindex : Record.argIndex ⟨i, ["a"], [reference j]⟩ TableName.meanings.text 0 = .ok j :=
    Record.argIndex_eq_ok.mpr (index?_reference rfl hj)
  simp only [meaningAt, Table.get_of_content? h, ok_bind, Record.kind, Record.tags,
    List.headD_cons, hindex, map_eq_pure_bind]

/-- A variable has the meaning under its number. -/
theorem variableAt_denoting {name : String} {m : Nat}
    (h : D.content? ⟨.var, i⟩ = some ⟨[name], [reference m]⟩) (hm : m < 2 ^ 63)
    (hpos : 0 < reference m) :
    D.variableAt (levels + 1) i = (⟨name, reference m, ·⟩) <$> D.meaningAt levels m := by
  obtain ⟨own, s, hown, htags, hs, hsymbol⟩ := content?_var.mp h
  have hshape : Record.expect ⟨i, own⟩ TableName.vars.text 1 1 = .ok () :=
    Record.expect_eq_ok.mpr ⟨htags, Content.length_of_index? hs⟩
  have hindex : Record.argIndex ⟨i, own⟩ TableName.vars.text 0 = .ok s :=
    Record.argIndex_eq_ok.mpr hs
  have hnamed : Record.expect ⟨s, [name], [reference m]⟩ TableName.symbols.text 1 1 = .ok () := rfl
  have hnumber : (reference m).toInt.toNat = m := by
    rw [reference, Int64.toInt_ofNat_of_lt hm, Int.toNat_natCast]
  simp only [variableAt, Table.get_of_content? hown, hshape, hindex,
    Table.get_of_content? hsymbol, hnamed, ok_bind, Record.args, List.headD_cons, if_pos hpos,
    hnumber, map_eq_pure_bind]
  rfl

/-- A minted address is decoded as its word is read. -/
theorem decodeExpr_address {d : Dictionary} {a : UInt64}
    (hlater : (Mint.addressExpr a d).2.Extends D) :
    D.decodeExpr (Mint.addressExpr a d).1 =
      if a.toNat < 2 ^ 63 then .ok (.const (.address a))
      else .error (unreadable .exprs (Mint.addressExpr a d).1 a) :=
  exprAt_address (hlater .exprs (content?_add d .exprs _))

/-- A variable that was minted for a fixed value is decoded as the value is. -/
theorem decodeVariable_fixed {d : Dictionary} {name : String} {j : Nat} (hD : D.Addressable)
    (hlater : (Mint.fixed name j d).2.Extends D) (hj : j < 2 ^ 63) :
    ∃ number levels, 0 < number ∧ D.decodeVariable (Mint.fixed name j d).1 =
      (⟨name, number, .fixed ·⟩) <$> D.fixedValueAt (levels + 1) j := by
  have hwritten : (Form.denoting name ⟨["a"], [reference j]⟩).Written D (Mint.fixed name j d).1 :=
    (Form.denoting name ⟨["a"], [reference j]⟩).written hD hlater
  obtain ⟨m, hm, hsymbol, hmeaning⟩ := hwritten
  have hpos : 0 < reference m := reference_pos hmeaning hm
  refine ⟨reference m, 254, hpos, ?_⟩
  rw [decodeVariable, variableAt_denoting hsymbol hm hpos, show maxDepth = 254 + 1 + 1 from rfl,
    meaningAt_fixed hmeaning hj, ← comp_map]
  rfl

/-! ### Minted words -/

/-- **Words come back from the lower half of the range.** A minted address is decoded to itself
below two to the sixty-third, and is refused from there on; so is the variable of what the call at a
site returned, by its call site. -/
theorem minted_word_decode :
    (∀ (d : Dictionary) (a : UInt64),
      Relation.ReflTransGen Change (Mint.addressExpr a d).2 D →
      D.decodeExpr (Mint.addressExpr a d).1 =
        if a.toNat < 2 ^ 63 then .ok (.const (.address a))
        else .error (unreadable .exprs (Mint.addressExpr a d).1 a)) ∧
    ∀ (d d' : Dictionary) (site : UInt64) (callee : Option String) (name : String),
      Relation.ReflTransGen Change (Mint.returnValue site callee d).2 d' →
      Relation.ReflTransGen Change (Mint.fixed name (Mint.returnValue site callee d).1 d').2 D →
      D.Addressable →
      ∃ number, 0 < number ∧
        D.decodeVariable (Mint.fixed name (Mint.returnValue site callee d).1 d').1 =
          if site.toNat < 2 ^ 63 then .ok ⟨name, number, .fixed (.returnValue site callee)⟩
          else .error (unreadable .fixedValues (Mint.returnValue site callee d).1 site) := by
  refine ⟨fun d a hlater => ?_, fun d d' site callee name hbetween hlater hD => ?_⟩
  · exact decodeExpr_address (extends_of_changes hlater)
  · have hlater := extends_of_changes hlater
    have hminted : d'.Extends (Mint.fixed name (Mint.returnValue site callee d).1 d').2 :=
      (Form.denoting name ⟨["a"], [reference _]⟩).extends d'
    have hvalue : D.fixedValues.content? (Mint.returnValue site callee d).1 = some _ :=
      (hminted.trans hlater) .fixedValues
        (extends_of_changes hbetween .fixedValues (content?_add d .fixedValues _))
    obtain ⟨number, levels, hpos, hdecoded⟩ :=
      decodeVariable_fixed hD hlater (hD.index_lt .fixedValues hvalue)
    refine ⟨number, hpos, ?_⟩
    rw [hdecoded, fixedValueAt_returnValue hvalue]
    split <;> rfl

/-- The last word of the lower half is decoded, and the highest call site is refused. -/
theorem minted_word_decode_of_ends :
    let a : UInt64 := 0x7fffffffffffffff
    let site : UInt64 := 0xffffffffffffffff
    let (i, d) := Mint.addressExpr a {}
    let (j, d') := Mint.returnValue site (some "malloc") d
    let (v, D) := Mint.fixed "buffer" j d'
    Relation.ReflTransGen Change d D ∧ Relation.ReflTransGen Change d' d' ∧
      Relation.ReflTransGen Change D D ∧ D.Addressable ∧
      D.decodeExpr i = .ok (.const (.address a)) ∧
      D.decodeVariable v = .error (unreadable .fixedValues j site) := by
  intro a site
  let d := (Mint.addressExpr a {}).2
  let d' := (Mint.returnValue site (some "malloc") d).2
  let D := (Mint.fixed "buffer" (Mint.returnValue site (some "malloc") d).1 d').2
  have hlater : Relation.ReflTransGen Change d D :=
    .head (.add d .fixedValues _) (.head (.add d' .meanings _)
      (.head (.add _ .symbols _) (.single (.add _ .vars _))))
  have hD : D.Addressable := by
    intro name
    cases name <;> decide +kernel
  obtain ⟨number, -, hvariable⟩ :=
    minted_word_decode.2 d d' site (some "malloc") "buffer" .refl .refl hD
  exact ⟨hlater, .refl, .refl, hD, minted_word_decode.1 {} a hlater, hvariable⟩

/-- The first address of the upper half does not come back. -/
theorem upper_address_refused :
    (Mint.addressExpr 0x8000000000000000 {}).2.decodeExpr
      (Mint.addressExpr 0x8000000000000000 {}).1 ≠ .ok (.const (.address 0x8000000000000000)) := by
  rw [decodeExpr_address (.refl _), if_neg (by decide)]
  nofun

end FactLift.Dictionary
