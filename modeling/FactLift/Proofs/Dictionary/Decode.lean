import FactLift.Proofs.Dictionary.Rules

/-! Decoding finds exactly what the rules derive within the limit on depth.

With a level left, each decoder concludes a value by the rule for the record at hand, from values
decoded with one level less (`valueAt_succ`). By induction on the levels a decoded value has a
derivation that stays within them, and every such derivation is decoded
(`decode_iff_derivation`). -/

namespace FactLift

open FactLift.Sym

namespace Dictionary

/-- The value of a node, with so many levels of records left. -/
def valueAt (d : Dictionary) (levels : Nat) (n : Node) : Except Error Value :=
  match n.kind with
  | .var => Value.var <$> d.variableAt levels n.index
  | .meaning => Value.meaning <$> d.meaningAt levels n.index
  | .base => Value.base <$> d.baseAt levels n.index
  | .offset => Value.offset <$> d.offsetAt levels n.index
  | .fixedValue => Value.fixedValue <$> d.fixedValueAt levels n.index
  | .expr => Value.expr <$> d.exprAt levels n.index
  | .interval =>
    match levels with
    | 0 => .error (tooDeep .intervals n.index)
    | _ + 1 => Value.interval <$> d.decodeInterval n.index

/-- The value of a node, at any permitted depth. -/
def decode (d : Dictionary) (n : Node) : Except Error Value :=
  match n.kind with
  | .var => Value.var <$> d.decodeVariable n.index
  | .expr => Value.expr <$> d.decodeExpr n.index
  | .interval => Value.interval <$> d.decodeInterval n.index
  -- What only occurs inside of these.
  | _ => d.valueAt (maxDepth + 1) n

/-- The value of a node follows by a rule from values that are decoded with so many levels. -/
def Follows (d : Dictionary) (levels : Nat) (n : Node) (v : Value) : Prop :=
  ∃ c premises, d.content? n = some c ∧ Rule n.kind c premises v ∧
    ∀ p ∈ premises, d.valueAt levels p.1 = .ok p.2

/-- The value of a record of a kind follows by a rule from values that are decoded with so many
levels. -/
def Concludes (d : Dictionary) (levels : Nat) (kind : Kind) (c : Content) (v : Value) : Prop :=
  ∃ premises, Rule kind c premises v ∧ ∀ p ∈ premises, d.valueAt levels p.1 = .ok p.2

section

variable {d : Dictionary} {levels i : Nat}

theorem decode_eq (n : Node) : d.decode n = d.valueAt (maxDepth + 1) n := by
  obtain ⟨kind, i⟩ := n
  cases kind <;> rfl

theorem valueAt_var {v : Variable} :
    d.valueAt levels ⟨.var, i⟩ = .ok (.var v) ↔ d.variableAt levels i = .ok v := by
  simp [valueAt, map_eq_ok]

theorem valueAt_meaning {m : Meaning} :
    d.valueAt levels ⟨.meaning, i⟩ = .ok (.meaning m) ↔ d.meaningAt levels i = .ok m := by
  simp [valueAt, map_eq_ok]

theorem valueAt_base {b : Base} :
    d.valueAt levels ⟨.base, i⟩ = .ok (.base b) ↔ d.baseAt levels i = .ok b := by
  simp [valueAt, map_eq_ok]

theorem valueAt_offset {o : Offset} :
    d.valueAt levels ⟨.offset, i⟩ = .ok (.offset o) ↔ d.offsetAt levels i = .ok o := by
  simp [valueAt, map_eq_ok]

theorem valueAt_fixedValue {f : FixedValue} :
    d.valueAt levels ⟨.fixedValue, i⟩ = .ok (.fixedValue f) ↔
      d.fixedValueAt levels i = .ok f := by
  simp [valueAt, map_eq_ok]

theorem valueAt_expr {x : Expr} :
    d.valueAt levels ⟨.expr, i⟩ = .ok (.expr x) ↔ d.exprAt levels i = .ok x := by
  simp [valueAt, map_eq_ok]

/-! ### One record -/

section

variable {kind : Kind} {c : Content} {m n : Node} {u v w : Value}

theorem Concludes.alone (rule : Rule kind c [] v) : d.Concludes levels kind c v :=
  ⟨_, rule, nofun⟩

theorem Concludes.one (rule : Rule kind c [(n, w)] v) (hn : d.valueAt levels n = .ok w) :
    d.Concludes levels kind c v :=
  ⟨_, rule, List.forall_mem_singleton.mpr hn⟩

theorem Concludes.two (rule : Rule kind c [(m, u), (n, w)] v) (hm : d.valueAt levels m = .ok u)
    (hn : d.valueAt levels n = .ok w) : d.Concludes levels kind c v :=
  ⟨_, rule, List.forall_mem_cons.mpr ⟨hm, List.forall_mem_singleton.mpr hn⟩⟩

/-- A decoder that looks up the node's own record and concludes its value from it decodes what
follows. -/
theorem get_bind_eq_ok {α : Type} (kind : Kind) {f : Record → Except Error α} {a : α}
    (hkind : kind ≠ .var)
    (h : ∀ c, f ⟨i, c⟩ = .ok a ↔ d.Concludes levels kind c v) :
    ((d.table kind.table).get i >>= f) = .ok a ↔ d.Follows levels ⟨kind, i⟩ v := by
  have hheld (c : Content) :
      d.content? ⟨kind, i⟩ = some c ↔ (d.table kind.table).content? i = some c := by
    cases kind with
    | var => exact absurd rfl hkind
    | _ => exact Iff.rfl
  rw [bind_eq_ok]
  constructor
  · rintro ⟨⟨j, c⟩, hr, ha⟩
    obtain ⟨hc, rfl⟩ := Table.get_eq_ok.mp hr
    obtain ⟨premises, rule, hps⟩ := (h c).mp ha
    exact ⟨c, premises, (hheld c).mpr hc, rule, hps⟩
  · rintro ⟨c, premises, hc, rule, hps⟩
    exact ⟨⟨i, c⟩, Table.get_of_content? ((hheld c).mp hc), (h c).mpr ⟨premises, rule, hps⟩⟩

end

theorem integerTag_eq_ok {r : Record} {table : String} {n : Nat} {v : Int64} :
    integerTag r table n = .ok v ↔ r.content.integer? n = some v := by
  unfold integerTag Content.integer?
  rw [bind_eq_ok, Option.bind_eq_some_iff]
  refine exists_congr fun s => ?_
  rw [Record.tag_eq_ok, and_congr_right_iff]
  intro _
  cases Text.parseInt64? s with
  | none => exact iff_of_false nofun nofun
  | some v' => exact pure_eq_ok.trans Option.some_inj.symm

/-- The first argument, where a record has one. -/
theorem headD_args {c : Content} {number : Int64} (h : c.args[0]? = some number) :
    c.args.headD 0 = number := by
  rw [List.headD_eq_head?_getD, List.head?_eq_getElem?, h]
  rfl

theorem index?_of_pos {c : Content} {number : Int64} (h : c.args[0]? = some number)
    (hpos : 0 < number) : c.index? 0 = some number.toInt.toNat := by
  have hpos : 0 < number.toInt := Int64.lt_iff_toInt_lt.mp hpos
  rw [Content.index?, h, Option.bind_some, Int.mem_toNat?]
  omega

theorem variableAt_succ {v : Variable} :
    d.variableAt (levels + 1) i = .ok v ↔ d.Follows levels ⟨.var, i⟩ (.var v) := by
  rw [variableAt]
  simp only [bind_eq_ok, Record.expect_eq_ok, Record.argIndex_eq_ok]
  constructor
  · rintro ⟨r, hr, -, ⟨htags, -⟩, j, hj, s, hs, -, ⟨hname, hnumber⟩, h⟩
    have hc : d.content? ⟨.var, i⟩ = some s.content :=
      content?_var.mpr ⟨_, j, (Table.get_eq_ok.mp hr).1, htags, hj, (Table.get_eq_ok.mp hs).1⟩
    have hname := List.getElem?_eq_getElem hname
    have hnumber := List.getElem?_eq_getElem hnumber
    have hkind : s.kind = _ := Record.kind_of_tag s.index hname
    rw [Record.args, headD_args hnumber, hkind] at h
    split at h
    next hpos =>
      simp only [bind_eq_ok, pure_eq_ok] at h
      obtain ⟨m, hm, rfl⟩ := h
      refine ⟨_, _, hc, .denoting hname hnumber hpos (index?_of_pos hnumber hpos), ?_⟩
      exact List.forall_mem_singleton.mpr (valueAt_meaning.mpr hm)
    next hpos =>
      simp only [bind_eq_ok, pure_eq_ok] at h
      obtain ⟨_, rfl, rfl⟩ := h
      exact ⟨_, _, hc, .unnumbered hname hnumber (Int64.not_lt.mp hpos), nofun⟩
  · rintro ⟨c, premises, hc, rule, hps⟩
    obtain ⟨own, s, hown, htags, hs, hc⟩ := content?_var.mp hc
    refine ⟨_, Table.get_of_content? hown, (), ⟨htags, Content.length_of_index? hs⟩, s, hs, _,
      Table.get_of_content? hc, (), ?_⟩
    cases rule with
    | unnumbered hname hnumber hle =>
      refine ⟨⟨(List.getElem?_eq_some_iff.mp hname).1, (List.getElem?_eq_some_iff.mp hnumber).1⟩,
        ?_⟩
      rw [Record.args, headD_args hnumber, Record.kind_of_tag s hname,
        if_neg (Int64.not_lt.mpr hle)]
      rfl
    | denoting hname hnumber hpos hj =>
      simp only [List.forall_mem_cons, valueAt_meaning] at hps
      refine ⟨⟨(List.getElem?_eq_some_iff.mp hname).1, (List.getElem?_eq_some_iff.mp hnumber).1⟩,
        ?_⟩
      rw [index?_of_pos hnumber hpos] at hj
      obtain rfl := Option.some.inj hj
      rw [Record.args, headD_args hnumber, Record.kind_of_tag s hname, if_pos hpos]
      exact bind_eq_ok.mpr ⟨_, hps.1, rfl⟩

theorem meaningAt_succ {m : Meaning} :
    d.meaningAt (levels + 1) i = .ok m ↔ d.Follows levels ⟨.meaning, i⟩ (.meaning m) := by
  rw [meaningAt]
  refine get_bind_eq_ok .meaning nofun fun c => ?_
  constructor
  · intro h
    split at h
    next hkind =>
      simp only [bind_eq_ok, pure_eq_ok, Record.tag_eq_ok] at h
      obtain ⟨name, hname, rfl⟩ := h
      exact .alone (.register (Record.tag_of_kind hkind (by decide)) hname)
    next hkind =>
      simp only [bind_eq_ok, pure_eq_ok, Record.tag_eq_ok] at h
      obtain ⟨name, hname, rfl⟩ := h
      exact .alone (.flag (Record.tag_of_kind hkind (by decide)) hname)
    next hkind =>
      simp only [bind_eq_ok, pure_eq_ok, Record.argIndex_eq_ok] at h
      obtain ⟨-, -, j, hj, b, hb, size, hsize, k, hk, o, ho, rfl⟩ := h
      exact .two (.memory (Record.tag_of_kind hkind (by decide)) hj hsize hk)
        (valueAt_base.mpr hb) (valueAt_offset.mpr ho)
    next hkind =>
      simp only [bind_eq_ok, pure_eq_ok, Record.argIndex_eq_ok] at h
      obtain ⟨j, hj, f, hf, rfl⟩ := h
      exact .one (.fixed (Record.tag_of_kind hkind (by decide)) hj) (valueAt_fixedValue.mpr hf)
    next => contradiction
  · rintro ⟨premises, rule, hps⟩
    cases rule with
    | register hkind hname =>
      simp only [Record.kind_of_tag i hkind, bind_eq_ok, pure_eq_ok, Record.tag_eq_ok]
      exact ⟨_, hname, rfl⟩
    | flag hkind hname =>
      simp only [Record.kind_of_tag i hkind, bind_eq_ok, pure_eq_ok, Record.tag_eq_ok]
      exact ⟨_, hname, rfl⟩
    | memory hkind hj hsize hk =>
      simp only [List.forall_mem_cons, valueAt_base, valueAt_offset] at hps
      simp only [Record.kind_of_tag i hkind, bind_eq_ok, pure_eq_ok, Record.argIndex_eq_ok,
        Record.expect_eq_ok]
      have htags := (List.getElem?_eq_some_iff.mp hkind).1
      have hargs := Content.length_of_index? hk
      exact ⟨(), ⟨by omega, by omega⟩, _, hj, _, hps.1, _, hsize, _, hk, _, hps.2.1, rfl⟩
    | fixed hkind hj =>
      simp only [List.forall_mem_cons, valueAt_fixedValue] at hps
      simp only [Record.kind_of_tag i hkind, bind_eq_ok, pure_eq_ok, Record.argIndex_eq_ok]
      exact ⟨_, hj, _, hps.1, rfl⟩

theorem baseAt_succ {b : Base} :
    d.baseAt (levels + 1) i = .ok b ↔ d.Follows levels ⟨.base, i⟩ (.base b) := by
  rw [baseAt]
  refine get_bind_eq_ok .base nofun fun c => ?_
  constructor
  · intro h
    split at h
    next hkind =>
      obtain rfl := pure_eq_ok.mp h
      exact .alone (.localFrame (Record.tag_of_kind hkind (by decide)))
    next hkind =>
      obtain rfl := pure_eq_ok.mp h
      exact .alone (.allocatedFrame (Record.tag_of_kind hkind (by decide)))
    next hkind =>
      obtain rfl := pure_eq_ok.mp h
      exact .alone (.realignedFrame (Record.tag_of_kind hkind (by decide)))
    next hkind =>
      obtain rfl := pure_eq_ok.mp h
      exact .alone (.globals (Record.tag_of_kind hkind (by decide)))
    next hkind =>
      simp only [bind_eq_ok, pure_eq_ok, Record.argIndex_eq_ok] at h
      obtain ⟨j, hj, v, hv, rfl⟩ := h
      exact .one (.pointer (Record.tag_of_kind hkind (by decide)) hj) (valueAt_var.mpr hv)
    next hkind =>
      obtain rfl := pure_eq_ok.mp h
      exact .alone (.unknownBase (Record.tag_of_kind hkind (by decide)))
    next => contradiction
  · rintro ⟨premises, rule, hps⟩
    cases rule with
    | localFrame hkind =>
      rw [Record.kind_of_tag i hkind]
      rfl
    | allocatedFrame hkind =>
      rw [Record.kind_of_tag i hkind]
      rfl
    | realignedFrame hkind =>
      rw [Record.kind_of_tag i hkind]
      rfl
    | globals hkind =>
      rw [Record.kind_of_tag i hkind]
      rfl
    | pointer hkind hj =>
      simp only [List.forall_mem_cons, valueAt_var] at hps
      simp only [Record.kind_of_tag i hkind, bind_eq_ok, pure_eq_ok, Record.argIndex_eq_ok]
      exact ⟨_, hj, _, hps.1, rfl⟩
    | unknownBase hkind =>
      rw [Record.kind_of_tag i hkind]
      rfl

theorem offsetAt_succ {o : Offset} :
    d.offsetAt (levels + 1) i = .ok o ↔ d.Follows levels ⟨.offset, i⟩ (.offset o) := by
  rw [offsetAt]
  refine get_bind_eq_ok .offset nofun fun c => ?_
  constructor
  · intro h
    split at h
    next hkind =>
      obtain rfl := pure_eq_ok.mp h
      exact .alone (.noOffset (Record.tag_of_kind hkind (by decide)))
    next hkind =>
      obtain rfl := pure_eq_ok.mp h
      exact .alone (.unknownOffset (Record.tag_of_kind hkind (by decide)))
    next hkind =>
      simp only [bind_eq_ok, pure_eq_ok, integerTag_eq_ok, Record.argIndex_eq_ok] at h
      obtain ⟨value, hvalue, j, hj, o, ho, rfl⟩ := h
      exact .one (.constOffset (Record.tag_of_kind hkind (by decide)) hvalue hj)
        (valueAt_offset.mpr ho)
    next hkind =>
      simp only [bind_eq_ok, pure_eq_ok, Record.tag_eq_ok, Record.argIndex_eq_ok] at h
      obtain ⟨name, hname, key, hkey, j, hj, o, ho, rfl⟩ := h
      exact .one (.fieldOffset (Record.tag_of_kind hkind (by decide)) hname hkey hj)
        (valueAt_offset.mpr ho)
    next hkind =>
      simp only [bind_eq_ok, pure_eq_ok, Record.argIndex_eq_ok] at h
      obtain ⟨j, hj, x, hx, k, hk, o, ho, rfl⟩ := h
      exact .two (.indexOffset (Record.tag_of_kind hkind (by decide)) hj hk)
        (valueAt_expr.mpr hx) (valueAt_offset.mpr ho)
    next hkind =>
      simp only [bind_eq_ok, pure_eq_ok, Record.argIndex_eq_ok] at h
      obtain ⟨j, hj, v, hv, size, hsize, k, hk, o, ho, rfl⟩ := h
      exact .two (.indexVarOffset (Record.tag_of_kind hkind (by decide)) hj hsize hk)
        (valueAt_var.mpr hv) (valueAt_offset.mpr ho)
    next => contradiction
  · rintro ⟨premises, rule, hps⟩
    cases rule with
    | noOffset hkind =>
      rw [Record.kind_of_tag i hkind]
      rfl
    | unknownOffset hkind =>
      rw [Record.kind_of_tag i hkind]
      rfl
    | constOffset hkind hvalue hj =>
      simp only [List.forall_mem_cons, valueAt_offset] at hps
      simp only [Record.kind_of_tag i hkind, bind_eq_ok, pure_eq_ok, integerTag_eq_ok,
        Record.argIndex_eq_ok]
      exact ⟨_, hvalue, _, hj, _, hps.1, rfl⟩
    | fieldOffset hkind hname hkey hj =>
      simp only [List.forall_mem_cons, valueAt_offset] at hps
      simp only [Record.kind_of_tag i hkind, bind_eq_ok, pure_eq_ok, Record.tag_eq_ok,
        Record.argIndex_eq_ok]
      exact ⟨_, hname, _, hkey, _, hj, _, hps.1, rfl⟩
    | indexOffset hkind hj hk =>
      simp only [List.forall_mem_cons, valueAt_expr, valueAt_offset] at hps
      simp only [Record.kind_of_tag i hkind, bind_eq_ok, pure_eq_ok, Record.argIndex_eq_ok]
      exact ⟨_, hj, _, hps.1, _, hk, _, hps.2.1, rfl⟩
    | indexVarOffset hkind hj hsize hk =>
      simp only [List.forall_mem_cons, valueAt_var, valueAt_offset] at hps
      simp only [Record.kind_of_tag i hkind, bind_eq_ok, pure_eq_ok, Record.argIndex_eq_ok]
      exact ⟨_, hj, _, hps.1, _, hsize, _, hk, _, hps.2.1, rfl⟩

theorem fixedValueAt_succ {f : FixedValue} :
    d.fixedValueAt (levels + 1) i = .ok f ↔ d.Follows levels ⟨.fixedValue, i⟩ (.fixedValue f) := by
  rw [fixedValueAt]
  refine get_bind_eq_ok .fixedValue nofun fun c => ?_
  constructor
  · intro h
    split at h
    next hkind =>
      simp only [bind_eq_ok, pure_eq_ok, Record.tag_eq_ok] at h
      obtain ⟨name, hname, rfl⟩ := h
      exact .alone (.initialRegister (Record.tag_of_kind hkind (by decide)) hname)
    next hkind =>
      simp only [bind_eq_ok, pure_eq_ok, Record.argIndex_eq_ok] at h
      obtain ⟨j, hj, v, hv, rfl⟩ := h
      exact .one (.initialMemory (Record.tag_of_kind hkind (by decide)) hj) (valueAt_var.mpr hv)
    next hkind =>
      simp only [bind_eq_ok, pure_eq_ok, integerTag_eq_ok] at h
      obtain ⟨site, hsite, rfl⟩ := h
      exact .alone (.returnValue (Record.tag_of_kind hkind (by decide)) hsite)
    next hkind =>
      simp only [bind_eq_ok, pure_eq_ok, Record.tag_eq_ok, Record.argIndex_eq_ok] at h
      obtain ⟨name, hname, j, hj, x, hx, rfl⟩ := h
      exact .one (.symbolic (Record.tag_of_kind hkind (by decide)) hname hj) (valueAt_expr.mpr hx)
    next => contradiction
  · rintro ⟨premises, rule, hps⟩
    cases rule with
    | initialRegister hkind hname =>
      simp only [Record.kind_of_tag i hkind, bind_eq_ok, pure_eq_ok, Record.tag_eq_ok]
      exact ⟨_, hname, rfl⟩
    | initialMemory hkind hj =>
      simp only [List.forall_mem_cons, valueAt_var] at hps
      simp only [Record.kind_of_tag i hkind, bind_eq_ok, pure_eq_ok, Record.argIndex_eq_ok]
      exact ⟨_, hj, _, hps.1, rfl⟩
    | returnValue hkind hsite =>
      simp only [Record.kind_of_tag i hkind, bind_eq_ok, pure_eq_ok, integerTag_eq_ok]
      exact ⟨_, hsite, rfl⟩
    | symbolic hkind hname hj =>
      simp only [List.forall_mem_cons, valueAt_expr] at hps
      simp only [Record.kind_of_tag i hkind, bind_eq_ok, pure_eq_ok, Record.tag_eq_ok,
        Record.argIndex_eq_ok]
      exact ⟨_, hname, _, hj, _, hps.1, rfl⟩

/-- Two lists agree through looked-up values exactly if these pair up with the second list. -/
theorem forall₂_lookup {α β γ : Type} {f : α → Option β} {P : β → γ → Prop} {as : List α}
    {cs : List γ} :
    List.Forall₂ (fun a c => ∃ b, f a = some b ∧ P b c) as cs ↔
      ∃ pairs : List (β × γ), as.map f = pairs.map (some ·.1) ∧ pairs.map (·.2) = cs ∧
        ∀ p ∈ pairs, P p.1 p.2 := by
  constructor
  · intro h
    induction h with
    | nil => exact ⟨[], rfl, rfl, nofun⟩
    | @cons a c as cs hac _ ih =>
      obtain ⟨b, hb, hbc⟩ := hac
      obtain ⟨pairs, hmap, hcs, hall⟩ := ih
      refine ⟨(b, c) :: pairs, ?_, ?_, List.forall_mem_cons.mpr ⟨hbc, hall⟩⟩
      · simp only [List.map_cons, hb, hmap]
      · simp only [List.map_cons, hcs]
  · rintro ⟨pairs, hmap, rfl, hall⟩
    induction pairs generalizing as with
    | nil =>
      rw [List.map_eq_nil_iff.mp hmap]
      exact .nil
    | cons p pairs ih =>
      obtain ⟨a, rest, rfl, ha, hrest⟩ := List.map_eq_cons_iff.mp hmap
      obtain ⟨hp, hall⟩ := List.forall_mem_cons.mp hall
      exact .cons ⟨_, ha, hp⟩ (ih hrest hall)

theorem exprAt_succ {x : Expr} :
    d.exprAt (levels + 1) i = .ok x ↔ d.Follows levels ⟨.expr, i⟩ (.expr x) := by
  rw [exprAt]
  refine get_bind_eq_ok .expr nofun fun c => ?_
  constructor
  · intro h
    split at h
    next hkind =>
      simp only [bind_eq_ok, pure_eq_ok, Record.argIndex_eq_ok] at h
      obtain ⟨j, hj, v, hv, rfl⟩ := h
      exact .one (.varExpr (Record.tag_of_kind hkind (by decide)) hj) (valueAt_var.mpr hv)
    next hkind =>
      have htag := Record.tag_of_kind hkind (by decide)
      simp only [bind_eq_ok, integerTag_eq_ok] at h
      obtain ⟨value, hvalue, h⟩ := h
      split at h
      next hwidth =>
        obtain rfl := pure_eq_ok.mp h
        exact .alone (.narrowInt htag hvalue hwidth)
      next hwidth =>
        obtain rfl := pure_eq_ok.mp h
        exact .alone (.wideInt htag hvalue hwidth)
      next => contradiction
    next hkind =>
      simp only [bind_eq_ok, pure_eq_ok, integerTag_eq_ok] at h
      obtain ⟨value, hvalue, rfl⟩ := h
      exact .alone (.address (Record.tag_of_kind hkind (by decide)) hvalue)
    next hkind =>
      simp only [bind_eq_ok, Record.tag_eq_ok] at h
      obtain ⟨name, hname, h⟩ := h
      split at h
      next => contradiction
      next op hop =>
        simp only [bind_eq_ok, pure_eq_ok, mapM_eq_ok, Record.argIndex_eq_ok] at h
        obtain ⟨xs, hxs, rfl⟩ := h
        obtain ⟨operands, hargs, rfl, hall⟩ := forall₂_lookup.mp hxs
        refine ⟨_, .apply (Record.tag_of_kind hkind (by decide)) hname hop hargs, ?_⟩
        rw [List.forall_mem_map]
        exact fun o ho => valueAt_expr.mpr (hall o ho)
    next => contradiction
  · rintro ⟨premises, rule, hps⟩
    cases rule with
    | varExpr hkind hj =>
      simp only [List.forall_mem_cons, valueAt_var] at hps
      simp only [Record.kind_of_tag i hkind, bind_eq_ok, pure_eq_ok, Record.argIndex_eq_ok]
      exact ⟨_, hj, _, hps.1, rfl⟩
    | narrowInt hkind hvalue hwidth =>
      simp only [Record.kind_of_tag i hkind, bind_eq_ok, integerTag_eq_ok, Record.tags, hwidth]
      exact ⟨_, hvalue, rfl⟩
    | wideInt hkind hvalue hwidth =>
      simp only [Record.kind_of_tag i hkind, bind_eq_ok, integerTag_eq_ok, Record.tags, hwidth]
      exact ⟨_, hvalue, rfl⟩
    | address hkind hvalue =>
      simp only [Record.kind_of_tag i hkind, bind_eq_ok, pure_eq_ok, integerTag_eq_ok]
      exact ⟨_, hvalue, rfl⟩
    | apply hkind hname hop hargs =>
      simp only [List.forall_mem_map, valueAt_expr] at hps
      simp only [Record.kind_of_tag i hkind, bind_eq_ok, Record.tag_eq_ok]
      refine ⟨_, hname, ?_⟩
      simp only [hop, bind_eq_ok, pure_eq_ok, mapM_eq_ok, Record.argIndex_eq_ok]
      exact ⟨_, forall₂_lookup.mpr ⟨_, hargs, rfl, hps⟩, rfl⟩

theorem bound_eq_ok {r : Record} {n : Nat} {unbounded : String} {b : Option Int64}
    (hopen : Text.parseInt64? unbounded = none) :
    bound r n unbounded = .ok b ↔
      ∃ text, r.content.tags[n]? = some text ∧ IsBound unbounded text b := by
  unfold bound
  split
  next htag =>
    rw [pure_eq_ok]
    constructor
    · rintro rfl
      exact ⟨_, htag, rfl⟩
    · rintro ⟨text, htext, hb⟩
      obtain rfl := Option.some.inj (htag.symm.trans htext)
      cases b with
      | none => rfl
      | some v => exact absurd (hopen.symm.trans hb) nofun
  next htag =>
    simp only [bind_eq_ok, pure_eq_ok, integerTag_eq_ok, Content.integer?,
      Option.bind_eq_some_iff]
    constructor
    · rintro ⟨v, ⟨text, htext, hv⟩, rfl⟩
      exact ⟨text, htext, hv⟩
    · rintro ⟨text, htext, hb⟩
      cases b with
      | none => exact absurd (hb ▸ htext) htag
      | some v => exact ⟨v, ⟨text, htext, hb⟩, rfl⟩

theorem decodeInterval_eq_ok {v : Interval} :
    d.decodeInterval i = .ok v ↔ d.Follows levels ⟨.interval, i⟩ (.interval v) := by
  have hlow : Text.parseInt64? "-oo" = none := by decide
  have hhigh : Text.parseInt64? "oo" = none := by decide
  simp only [decodeInterval, bind_eq_ok, pure_eq_ok, Record.expect_eq_ok, bound_eq_ok hlow,
    bound_eq_ok hhigh]
  constructor
  · rintro ⟨r, hr, -, -, low, ⟨lowText, hlowText, hlow⟩, high, ⟨highText, hhighText, hhigh⟩, rfl⟩
    have hc : d.content? ⟨.interval, i⟩ = some r.content := (Table.get_eq_ok.mp hr).1
    exact ⟨_, _, hc, .interval hlowText hhighText hlow hhigh, nofun⟩
  · rintro ⟨c, premises, hc, rule, -⟩
    cases rule with
    | interval hlowText hhighText hlow hhigh =>
      have htags := (List.getElem?_eq_some_iff.mp hhighText).1
      exact ⟨_, Table.get_of_content? hc, (), ⟨htags, Nat.zero_le _⟩, _, ⟨_, hlowText, hlow⟩, _,
        ⟨_, hhighText, hhigh⟩, rfl⟩

theorem Follows.kind_eq {n : Node} {v : Value} (h : d.Follows levels n v) : v.kind = n.kind := by
  obtain ⟨_, _, -, rule, -⟩ := h
  exact rule.kind_eq

/-- **One level.** With a level left, decoding concludes by a rule from values decoded with one
level less. -/
theorem valueAt_succ {n : Node} {v : Value} :
    d.valueAt (levels + 1) n = .ok v ↔ d.Follows levels n v := by
  obtain ⟨kind, i⟩ := n
  constructor
  · intro h
    cases kind with
    | var =>
      obtain ⟨v, hv, rfl⟩ := map_eq_ok.mp h
      exact variableAt_succ.mp hv
    | meaning =>
      obtain ⟨m, hm, rfl⟩ := map_eq_ok.mp h
      exact meaningAt_succ.mp hm
    | base =>
      obtain ⟨b, hb, rfl⟩ := map_eq_ok.mp h
      exact baseAt_succ.mp hb
    | offset =>
      obtain ⟨o, ho, rfl⟩ := map_eq_ok.mp h
      exact offsetAt_succ.mp ho
    | fixedValue =>
      obtain ⟨f, hf, rfl⟩ := map_eq_ok.mp h
      exact fixedValueAt_succ.mp hf
    | expr =>
      obtain ⟨x, hx, rfl⟩ := map_eq_ok.mp h
      exact exprAt_succ.mp hx
    | interval =>
      obtain ⟨v, hv, rfl⟩ := map_eq_ok.mp h
      exact decodeInterval_eq_ok.mp hv
  · intro h
    obtain rfl : v.kind = kind := h.kind_eq
    cases v with
    | var v => exact valueAt_var.mpr (variableAt_succ.mpr h)
    | meaning m => exact valueAt_meaning.mpr (meaningAt_succ.mpr h)
    | base b => exact valueAt_base.mpr (baseAt_succ.mpr h)
    | offset o => exact valueAt_offset.mpr (offsetAt_succ.mpr h)
    | fixedValue f => exact valueAt_fixedValue.mpr (fixedValueAt_succ.mpr h)
    | expr x => exact valueAt_expr.mpr (exprAt_succ.mpr h)
    | interval v => exact map_eq_ok.mpr ⟨v, decodeInterval_eq_ok.mpr h, rfl⟩

theorem valueAt_zero {n : Node} {v : Value} : d.valueAt 0 n ≠ .ok v := by
  obtain ⟨kind, i⟩ := n
  cases kind <;> exact nofun

end

/-! ### Derivations -/

section

variable {d : Dictionary} {n : Node} {v : Value}

/-- What is decoded has a derivation that stays within the levels. -/
theorem exists_derivation {levels : Nat} (h : d.valueAt levels n = .ok v) {depth limit : Nat}
    (hlimit : depth + levels ≤ limit + 1) : ∃ t : d.Derivation n v, t.StaysWithin limit depth := by
  induction levels generalizing n v depth with
  | zero => exact absurd h valueAt_zero
  | succ levels ih =>
    obtain ⟨c, premises, hc, rule, hps⟩ := valueAt_succ.mp h
    have hsub (p) (hp : p ∈ premises) :
        ∃ t : d.Derivation p.1 p.2, t.StaysWithin limit (depth + 1) :=
      ih (hps p hp) (by omega)
    exact ⟨.step premises hc rule fun p hp => (hsub p hp).choose,
      by omega, fun p hp => (hsub p hp).choose_spec⟩

/-- A derivation that stays within the levels is decoded. -/
theorem Derivation.StaysWithin.valueAt {limit depth levels : Nat} {t : d.Derivation n v}
    (h : t.StaysWithin limit depth) (hlevels : limit < depth + levels) :
    d.valueAt levels n = .ok v := by
  induction t generalizing depth levels with
  | step premises held rule subs ih =>
    obtain ⟨hdepth, hsubs⟩ := h
    obtain ⟨levels, rfl⟩ : ∃ l, levels = l + 1 := ⟨levels - 1, by omega⟩
    exact valueAt_succ.mpr
      ⟨_, _, held, rule, fun p hp => ih p hp (hsubs p hp) (by omega)⟩

theorem decode_eq_ok_iff :
    d.decode n = .ok v ↔ ∃ t : d.Derivation n v, t.StaysWithin maxDepth 0 := by
  rw [decode_eq]
  exact ⟨fun h => exists_derivation h (by omega), fun ⟨_, h⟩ => h.valueAt (by omega)⟩

/-- A chain of references from what is decoded is no longer than the limit. -/
theorem length_le_of_decode (h : d.decode n = .ok v) {chain : List Node}
    (hchain : d.IsChain n chain) : chain.length ≤ maxDepth := by
  obtain ⟨t, ht⟩ := decode_eq_ok_iff.mp h
  have := ht.length_le hchain
  omega

theorem decodeVariable_iff_decode {i : Nat} {v : Variable} :
    d.decodeVariable i = .ok v ↔ d.decode ⟨.var, i⟩ = .ok (.var v) := by
  simp [decode, map_eq_ok]

theorem decodeExpr_iff_decode {i : Nat} {x : Expr} :
    d.decodeExpr i = .ok x ↔ d.decode ⟨.expr, i⟩ = .ok (.expr x) := by
  simp [decode, map_eq_ok]

theorem decodeInterval_iff_decode {i : Nat} {v : Interval} :
    d.decodeInterval i = .ok v ↔ d.decode ⟨.interval, i⟩ = .ok (.interval v) := by
  simp [decode, map_eq_ok]

end

/-- **Decoding is derivation within the limit.** For any tables, an expression or a variable is
decoded exactly if the rules derive it with its own record at depth 0 and no record deeper than
256; if its references lead into a cycle, decoding fails. -/
theorem decode_iff_derivation (d : Dictionary) (i : Nat) :
    (∀ x, d.decodeExpr i = .ok x ↔
      ∃ t : d.Derivation ⟨.expr, i⟩ (.expr x), t.StaysWithin 256 0) ∧
    (∀ v, d.decodeVariable i = .ok v ↔
      ∃ t : d.Derivation ⟨.var, i⟩ (.var v), t.StaysWithin 256 0) ∧
    (d.ReachesCycle ⟨.expr, i⟩ → ∃ e, d.decodeExpr i = .error e) ∧
    (d.ReachesCycle ⟨.var, i⟩ → ∃ e, d.decodeVariable i = .error e) := by
  have hexpr (x : Expr) : d.decodeExpr i = .ok x ↔ _ :=
    decodeExpr_iff_decode.trans decode_eq_ok_iff
  have hvar (v : Variable) : d.decodeVariable i = .ok v ↔ _ :=
    decodeVariable_iff_decode.trans decode_eq_ok_iff
  refine ⟨hexpr, hvar, fun hcycle => ?_, fun hcycle => ?_⟩
  · cases hx : d.decodeExpr i with
    | error e => exact ⟨e, rfl⟩
    | ok x =>
      obtain ⟨t, -⟩ := (hexpr x).mp hx
      exact absurd hcycle t.not_reachesCycle
  · cases hv : d.decodeVariable i with
    | error e => exact ⟨e, rfl⟩
    | ok v =>
      obtain ⟨t, -⟩ := (hvar v).mp hv
      exact absurd hcycle t.not_reachesCycle

/-- A dictionary in which an expression is the value of a variable in memory that is indexed by
the expression itself. -/
def selfIndexed : Dictionary where
  symbols := ⟨"symbol", .ofList [⟨["cell"], [1]⟩]⟩
  vars := ⟨"variable", .ofList [⟨["v"], [1]⟩]⟩
  meanings := ⟨"denotation", .ofList [⟨["m"], [1, 4, 2]⟩]⟩
  bases := ⟨"membase", .ofList [⟨["g"], []⟩]⟩
  offsets := ⟨"memoffset", .ofList [⟨["n"], []⟩, ⟨["a"], [1, 1]⟩]⟩
  exprs := ⟨"xpr", .ofList [⟨["v"], [1]⟩]⟩

/-- The cycle of `selfIndexed` runs through four tables, and its expression is refused. -/
theorem decode_iff_derivation_of_cycle :
    selfIndexed.ReachesCycle ⟨.expr, 1⟩ ∧ ∃ e, selfIndexed.decodeExpr 1 = .error e := by
  have hvar : selfIndexed.Refers ⟨.expr, 1⟩ ⟨.var, 1⟩ := by decide
  have hmeaning : selfIndexed.Refers ⟨.var, 1⟩ ⟨.meaning, 1⟩ := by decide
  have hoffset : selfIndexed.Refers ⟨.meaning, 1⟩ ⟨.offset, 2⟩ := by decide
  have hexpr : selfIndexed.Refers ⟨.offset, 2⟩ ⟨.expr, 1⟩ := by decide
  have hcycle : selfIndexed.ReachesCycle ⟨.expr, 1⟩ :=
    ⟨_, .refl, .head hvar (.head hmeaning (.head hoffset (.single hexpr)))⟩
  exact ⟨hcycle, (decode_iff_derivation selfIndexed 1).2.2.1 hcycle⟩

end Dictionary

end FactLift
