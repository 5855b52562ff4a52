import FactLift.Proofs.Dictionary.Decode

/-! Decoded values stay as a dictionary grows.

`Change` is one call that mints or loads a record in some table, whether or not it succeeds. A
change keeps every record at its index (`Change.extends`), a derivation only ever reads records, and
so it is also one in the larger dictionary (`Derivation.extend`). -/

namespace FactLift

open FactLift.Sym

namespace Dictionary

variable {d d' : Dictionary}

/-- Every record of the one dictionary is in the other, in the same table at the same index. -/
def Extends (d d' : Dictionary) : Prop :=
  ∀ name, (d.table name).Extends (d'.table name)

theorem Extends.refl (d : Dictionary) : d.Extends d :=
  fun _ => Table.Extends.refl _

theorem Extends.trans {d'' : Dictionary} (h : d.Extends d') (h' : d'.Extends d'') :
    d.Extends d'' :=
  fun name _ _ hc => h' name (h name hc)

/-! ### Changes -/

@[simp] theorem table_setTable (d : Dictionary) (name name' : TableName) (t : Table) :
    (d.setTable name t).table name' = if name' = name then t else d.table name' := by
  cases name <;> cases name' <;> rfl

theorem extends_setTable {name : TableName} {t : Table} (h : (d.table name).Extends t) :
    d.Extends (d.setTable name t) := by
  intro name'
  rw [table_setTable]
  split
  next heq => exact heq ▸ h
  next => exact Table.Extends.refl _

theorem extends_add (d : Dictionary) (name : TableName) (c : Content) :
    d.Extends (d.add name c).2 :=
  extends_setTable ((d.table name).extends_add c)

/-- One call that mints or loads a record. -/
inductive Change : Dictionary → Dictionary → Prop
  | add (d : Dictionary) (name : TableName) (c : Content) : Change d (d.add name c).2
  | load {d d' : Dictionary} (name : TableName) (i : Nat) (c : Content) :
      d.insertAt name i c = .ok d' → Change d d'
  | refused {d : Dictionary} {e : Error} (name : TableName) (i : Nat) (c : Content) :
      d.insertAt name i c = .error e → Change d d

/-- **The step.** A change keeps every record. -/
theorem Change.extends (h : Change d d') : d.Extends d' := by
  cases h with
  | add name c => exact extends_add d name c
  | load name i c h =>
    simp only [insertAt, bind_eq_ok, pure_eq_ok] at h
    obtain ⟨t, ht, rfl⟩ := h
    exact extends_setTable (Table.extends_insertAt ht)
  | refused => exact .refl d

/-- Any number of changes keep every record. -/
theorem extends_of_changes (h : Relation.ReflTransGen Change d d') : d.Extends d' := by
  induction h with
  | refl => exact .refl d
  | tail _ hlast ih => exact ih.trans hlast.extends

/-! ### What is read -/

theorem Extends.content? (h : d.Extends d') {n : Node} {c : Content} (hc : d.content? n = some c) :
    d'.content? n = some c := by
  obtain ⟨kind, i⟩ := n
  cases kind with
  | var =>
    obtain ⟨own, s, hown, htags, hs, hc⟩ := content?_var.mp hc
    exact content?_var.mpr ⟨own, s, h .vars hown, htags, hs, h .symbols hc⟩
  | meaning => exact h .meanings hc
  | base => exact h .bases hc
  | offset => exact h .offsets hc
  | fixedValue => exact h .fixedValues hc
  | expr => exact h .exprs hc
  | interval => exact h .intervals hc

/-- The same derivation in a larger dictionary. -/
def Derivation.extend (h : d.Extends d') {n : Node} {v : Value} :
    d.Derivation n v → d'.Derivation n v
  | step premises held rule subs =>
    step premises (h.content? held) rule fun p hp => (subs p hp).extend h

theorem Derivation.StaysWithin.extend (h : d.Extends d') {n : Node} {v : Value}
    {t : d.Derivation n v} {limit depth : Nat} (ht : t.StaysWithin limit depth) :
    (t.extend h).StaysWithin limit depth := by
  induction t generalizing depth with
  | step premises held rule subs ih => exact ⟨ht.1, fun p hp => ih p hp (ht.2 p hp)⟩

theorem Extends.decode (h : d.Extends d') {n : Node} {v : Value} (hv : d.decode n = .ok v) :
    d'.decode n = .ok v := by
  obtain ⟨t, ht⟩ := decode_eq_ok_iff.mp hv
  exact decode_eq_ok_iff.mpr ⟨t.extend h, ht.extend h⟩

/-- **Decoded values are stable.** Whatever is minted or loaded afterwards, in any tables and with
any outcome, an index that was decoded is decoded to the same value. -/
theorem decode_stable (hchanges : Relation.ReflTransGen Change d d') (i : Nat) :
    (∀ v, d.decodeVariable i = .ok v → d'.decodeVariable i = .ok v) ∧
    (∀ x, d.decodeExpr i = .ok x → d'.decodeExpr i = .ok x) ∧
    (∀ v, d.decodeInterval i = .ok v → d'.decodeInterval i = .ok v) := by
  have hextends := extends_of_changes hchanges
  refine ⟨fun v hv => ?_, fun x hx => ?_, fun v hv => ?_⟩
  · exact decodeVariable_iff_decode.mpr (hextends.decode (decodeVariable_iff_decode.mp hv))
  · exact decodeExpr_iff_decode.mpr (hextends.decode (decodeExpr_iff_decode.mp hx))
  · exact decodeInterval_iff_decode.mpr (hextends.decode (decodeInterval_iff_decode.mp hv))

/-- An integer stays what it is when its record is loaded again and a load out of order is
refused. -/
theorem decode_stable_of_repeated :
    let d : Dictionary := { exprs := ⟨"xpr", .ofList [⟨["c", "7"], []⟩]⟩ }
    let d' : Dictionary := { exprs := ⟨"xpr", .ofList [⟨["c", "7"], []⟩, ⟨["c", "7"], []⟩]⟩ }
    let seven : Expr := .const (.int 7 .w32)
    Relation.ReflTransGen Change d d' ∧ d.decodeExpr 1 = .ok seven ∧
      d'.decodeExpr 1 = .ok seven := by
  intro d d' seven
  have hloaded : Change d d' := .load .exprs 2 ⟨["c", "7"], []⟩ rfl
  have hrefused : Change d' d' := .refused .exprs 9 ⟨["c", "8"], []⟩ rfl
  have hchanges : Relation.ReflTransGen Change d d' := .head hloaded (.single hrefused)
  have hdecoded : d.decodeExpr 1 = .ok seven := rfl
  exact ⟨hchanges, hdecoded, (decode_stable hchanges 1).2.1 seven hdecoded⟩

end Dictionary

end FactLift
