import FactLift.Log
import FactLift.Text.Hex

/-! How log records are written: as JSON objects in a log file, one to a line, and as plain lines on
a terminal. -/

namespace FactLift.Command

def jsonChar (c : Char) : String :=
  match c with
  | '"' => "\\\""
  | '\\' => "\\\\"
  | '\n' => "\\n"
  | '\r' => "\\r"
  | '\t' => "\\t"
  | c =>
    if c.toNat < 0x20 then
      let digits := Text.hexDigits c.toNat
      "\\u" ++ String.ofList (List.replicate (4 - digits.length) '0') ++ digits
    else c.toString

def jsonString (s : String) : String :=
  "\"" ++ String.join (s.toList.map jsonChar) ++ "\""

def jsonMember (member : String × String) : String :=
  jsonString member.1 ++ ":" ++ jsonString member.2

def jsonLine (r : LogRecord) : String :=
  let members := [("msg", r.message), ("level", r.level.name)] ++ r.details
  "\x7b" ++ ",".intercalate (members.map jsonMember) ++ "\x7d"

def terminalLine (r : LogRecord) : String :=
  r.level.name ++ " " ++ ", ".intercalate (r.message :: r.details.map fun (k, v) => k ++ ": " ++ v)

end FactLift.Command
