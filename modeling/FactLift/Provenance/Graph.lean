import FactLift.C.Print
import FactLift.Provenance.Basic

/-! The instruction mapping as a graph: each low-level instruction points to the high-level one it
became, which is drawn as a box. -/

namespace FactLift.Provenance

open C

/-- What is written into an instruction's node. -/
def graphLabel (p : Provenance) (number : Nat → Nat) (instr : Nat) : String :=
  let addresses := (p.instrAddresses[instr]?.getD []).map fun a => Text.hex a.toNat
  let text := match p.instructions[instr]? with
    | some i => i.text
    | none => s!"instr {number instr}"
  s!"{number instr} [" ++ ",".intercalate addresses ++ "]\n" ++ text

/-- The line of an instruction's node. -/
def graphNode (p : Provenance) (number : Nat → Nat) (instr : Nat) : String :=
  s!"    i{number instr}[label=\"" ++ Text.escapeAscii (p.graphLabel number instr) ++ "\"]" ++
    (if (p.instrs.lows instr).isEmpty then "" else "[shape=\"box\"]") ++ ";\n"

def graphEdge (number : Nat → Nat) (edge : Nat × Nat) : String :=
  s!"    i{number edge.1} -> i{number edge.2}[label=\"lifted\"];\n"

/-- The graph in the `dot` language, with instructions numbered as given. -/
def graph (p : Provenance) (number : Nat → Nat) : String :=
  "digraph Provenance \x7b\n" ++ String.join (p.instrs.nodes.map (p.graphNode number)) ++
    String.join (p.instrs.toList.map (graphEdge number)) ++ "\x7d\n"

end FactLift.Provenance
