import FactLift.Proofs.Symbols.Widening
import Mathlib.Data.Option.Basic

/-! What a use of a register reads.

The first fact about the register decides. Where exactly one of its locations is an address, and that
definition has a variable, the variable is read; everywhere else it is the register itself
(`registerUse_cases`). Locations that are no addresses, such as the entry of the function, are passed
over, so a register is also read through a variable where another definition reaches it
(`liftExpr_register`). -/

namespace FactLift

open C

namespace Locals

variable {l l' : Locals} {r : String} {w : Symbol}

/-- The variable stands for a register itself. -/
def IsRegister (l : Locals) (r : String) (w : Symbol) : Prop :=
  ∃ v, l.registers[r]? = some v ∧ l.get v = w

theorem isRegister_register (l : Locals) (r : String) :
    (l.register r).2.IsRegister r ((l.register r).2.get (l.register r).1) := by
  refine ⟨(l.register r).1, ?_, rfl⟩
  rcases l.register_cases r with ⟨v, hv, heq⟩ | ⟨v, l', -, -, heq⟩
  · rw [heq]
    exact hv
  · rw [heq]
    exact Std.TreeMap.getElem?_insert_self

theorem IsRegister.name (h : l.IsRegister r w) (hl : l.Sound) : w.name = r := by
  obtain ⟨v, hv, rfl⟩ := h
  exact (hl.registers r v hv).get

theorem IsRegister.widens (h : l.IsRegister r w) (hl : l.Sound) (hw : l.Widens l') :
    l'.IsRegister r w := by
  obtain ⟨v, hv, rfl⟩ := h
  exact ⟨v, hw.registers r v hv, hw.get (hl.registers r v hv)⟩

/-- The variable of a definition is called otherwise than the register. -/
theorem ssaName_ne (r : String) (a : UInt64) : ssaName r a ≠ r := by
  intro h
  have hlength := congrArg String.length h
  have hseparator : "_".length = 1 := rfl
  rw [ssaName, String.length_append, String.length_append] at hlength
  omega

theorem IsRegister.ne_ssa? (h : l.IsRegister r w) (hl : l.Sound) (a : UInt64) :
    l.ssa? r a ≠ some w := fun hw =>
  ssaName_ne r a ((hl.toWellNamed.ssa?_name hw).symm.trans (h.name hl))

end Locals

/-- The variable that is read for a register: that of the only address among the locations of the
first fact about it. -/
def Site.reachingVariable? (site : Site) (l : Locals) (r : String) : Option Symbol := do
  guard site.config.resolveUses
  let f ← site.reaching.find? fun f => f.var.register? == some r
  match f.addresses with
  | [a] => l.ssa? r a
  | _ => none

namespace LiftM

theorem registerUse_eq (r : String) (site : Site) (s : Session) :
    registerUse r site s =
      (match site.reachingVariable? s.locals r with
        | some w => pure w
        | none => registerVariable r : LiftM Symbol) site s := rfl

/-- **A use of a register** reads the variable of its definition and changes nothing, or it asks for
the variable of the register. -/
theorem registerUse_cases (r : String) (site : Site) (s : Session) :
    (∃ w, site.reachingVariable? s.locals r = some w ∧ registerUse r site s = (w, s)) ∨
      (site.reachingVariable? s.locals r = none ∧
        registerUse r site s = registerVariable r site s) := by
  rw [registerUse_eq]
  cases hw : site.reachingVariable? s.locals r with
  | some w => exact .inl ⟨w, rfl, rfl⟩
  | none => exact .inr ⟨rfl, rfl⟩

theorem liftExpr_register_eq {v : Sym.Variable} {r : String} (hv : v.meaning = .register r)
    (hnumber : v.number ≠ -1) :
    liftExpr (.var v) = do return .ofSymbol (← registerUse r) := by
  obtain ⟨name, number, meaning⟩ := v
  subst hv
  rw [liftExpr, Sym.Expr.settle, Sym.Expr.simplify, liftSettled, Sym.Variable.settle,
    Sym.Meaning.settle, liftVariable, if_neg (by simpa using hnumber)]

/-- **What a register is read through.** If exactly one location of the first fact about a register
is an address, and that definition has a variable, a use of the register reads the variable. In all
other cases it reads the register itself, which is no definition's variable. -/
theorem liftExpr_register {v : Sym.Variable} {r : String} (hv : v.meaning = .register r)
    (hnumber : v.number ≠ -1) {s : Session} (hs : s.locals.Sound) {d : Decoded} {f : Flow}
    (hf : (d.reachingDefs.filterMap Fact.value?).find? (fun f => f.var.register? == some r) = some f)
    (a : UInt64) :
    let out := (liftExpr (.var v)).runAt {} a d s
    ∃ w, out.1 = .ofSymbol w ∧
      ((∃ a', f.addresses = [a'] ∧ s.locals.ssa? r a' = some w) ∨
        (∀ a', f.addresses = [a'] → s.locals.ssa? r a' = none) ∧
          out.2.locals.IsRegister r w ∧ w.name = r ∧ ∀ a', out.2.locals.ssa? r a' ≠ some w) := by
  let site : Site := ⟨{}, a, d.reachingDefs.filterMap Fact.value?⟩
  let s₀ : Session := { s with pending := .ofDecoded d }
  have hreaching : site.reachingVariable? s.locals r =
      match f.addresses with
      | [a] => s.locals.ssa? r a
      | _ => none := by
    simp [Site.reachingVariable?, site, hf]
  rw [liftExpr_register_eq hv hnumber]
  show ∃ w, (Expr.ofSymbol (registerUse r site s₀).1) = .ofSymbol w ∧ _
  refine ⟨_, rfl, ?_⟩
  rcases registerUse_cases r site s₀ with ⟨w, hw, hrun⟩ | ⟨hnone, hrun⟩
  · left
    rw [hrun]
    change site.reachingVariable? s.locals r = some w at hw
    rw [hreaching] at hw
    split at hw
    next a' ha' => exact ⟨a', ha', hw⟩
    next => cases hw
  · right
    change site.reachingVariable? s.locals r = none at hnone
    rw [hreaching] at hnone
    have hregister : (s.locals.register r).2.IsRegister r (registerUse r site s₀).1 := by
      rw [hrun]
      exact s.locals.isRegister_register r
    have hlocals : ((do return .ofSymbol (← registerUse r) : LiftM Expr).runAt {} a d s).2.locals =
        (s.locals.register r).2 := congrArg (·.2.locals) hrun
    rw [hlocals]
    have hsound := hs.register r
    refine ⟨fun a' ha' => ?_, hregister, hregister.name hsound, hregister.ne_ssa? hsound⟩
    rw [ha'] at hnone
    exact hnone

/-- `R3` after its definition at `0x8` was asked for. -/
def definedSession : Session :=
  { Session.start {} "f" with
    locals := ((Session.start {} "f").locals.ssaVariable "R3" 0x8 none).2.2 }

/-- The fact that definitions of `R3` at these locations reach a use. -/
def reachedFrom (locations : List String) : Decoded :=
  { reachingDefs := [.present ⟨.reachingDef, ⟨"R3", 1, .register "R3"⟩, locations⟩] }

theorem definedSession_sound : definedSession.locals.Sound :=
  (Session.sound_start {} "f").ssaVariable "R3" 0x8 none

/-- Of two definitions with addresses neither is read. -/
theorem liftExpr_register_of_two :
    let out := (liftExpr (.var ⟨"R3", 1, .register "R3"⟩)).runAt {} 0x10
      (reachedFrom ["0x8", "0xc"]) definedSession
    ∃ w, out.1 = .ofSymbol w ∧ out.2.locals.IsRegister "R3" w ∧ w.name = "R3" ∧
      ∀ a, out.2.locals.ssa? "R3" a ≠ some w := by
  have haddresses : Flow.addresses ⟨.reachingDef, ⟨"R3", 1, .register "R3"⟩, ["0x8", "0xc"]⟩ =
      [0x8, 0xc] := by decide
  obtain ⟨w, hout, hread⟩ := liftExpr_register (v := ⟨"R3", 1, .register "R3"⟩) rfl (by decide)
    definedSession_sound (d := reachedFrom ["0x8", "0xc"]) rfl 0x10
  refine ⟨w, hout, ?_⟩
  rcases hread with ⟨a, ha, -⟩ | ⟨-, hregister⟩
  · rw [haddresses] at ha
    cases ha
  · exact hregister

/-- The entry of the function is passed over: where both it and the definition at `0x8` reach, the
use reads the variable of the definition. No symbol but that variable bears such a name. -/
theorem liftExpr_register_past_entry :
    let locations := ["init", "0x8"]
    let out := (liftExpr (.var ⟨"R3", 1, .register "R3"⟩)).runAt {} 0x10
      (reachedFrom locations) definedSession
    locations.Nodup ∧ locations.length = 2 ∧
      definedSession.locals.symbols.toList = [("R3_8", 0)] ∧
      definedSession.locals.ssa = #[⟨"R3", 0x8, 0⟩] ∧
      ∃ w, w.name = "R3_8" ∧ out.1 = .ofSymbol w ∧ out.2.locals.ssa? "R3" 0x8 = some w := by
  refine ⟨by decide, rfl, by decide, rfl, definedSession.locals.get 0, ?_, ?_, ?_⟩
  · decide
  · rfl
  · rfl

end LiftM

end FactLift
