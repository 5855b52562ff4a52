import FactLift.C.Stmt
import FactLift.Text.Quoted

/-! Printing trees as C.

Parentheses stand only where an operand binds looser than its place allows. Declarations are built
from the name outwards. Placeholders print as `?reason?`, so every tree has a text. -/

namespace FactLift.C

/-- How tightly a binary operator binds. -/
def BinOp.precedence : BinOp → Nat
  | mult | div | mod => 13
  | plus | minus => 12
  | shiftLt | shiftRt => 11
  | lt | le | gt | ge => 10
  | eq | ne => 9
  | band => 8
  | bxor => 7
  | bor => 6
  | land => 5
  | lor => 4

def BinOp.symbol : BinOp → String
  | plus => "+"
  | minus => "-"
  | mult => "*"
  | div => "/"
  | mod => "%"
  | shiftLt => "<<"
  | shiftRt => ">>"
  | band => "&"
  | bor => "|"
  | bxor => "^"
  | land => "&&"
  | lor => "||"
  | eq => "=="
  | ne => "!="
  | lt => "<"
  | le => "<="
  | gt => ">"
  | ge => ">="

def UnOp.symbol : UnOp → String
  | neg => "-"
  | bnot => "~"
  | lnot => "!"

/-- How tightly an expression binds; nothing binds tighter than 16. -/
def Expr.precedence : Expr → Nat
  | .int v _ => if v < 0 then 15 else 16
  | .float _ _ | .string _ _ | .unresolved _ => 16
  | .globalAddress _ e => e.precedence
  | .lval (.mem _ .none) => 15
  | .lval _ => 16
  | .sizeOf _ | .cast _ _ | .unary _ _ | .addressOf _ => 15
  | .binary op _ _ => op.precedence
  | .conditional _ _ _ => 3

def placeholder (reason : String) : String :=
  "?" ++ reason ++ "?"

/-- The text of an integer constant. Without a sign, large values are written in hexadecimal. -/
def intText (v : Int64) (k : IntKind) : String :=
  if !k.isSigned && (v < 0 || 0xffff < v) then Text.hex v.toUInt64.toNat ++ k.suffix
  else toString v.toInt ++ k.suffix

/-- An operand: its text, in parentheses if it binds looser than `least`. -/
def parenthesized (least precedence : Nat) (text : String) : String :=
  if precedence < least then "(" ++ text ++ ")" else text

/-- The declarator of a pointer. Pointers to arrays and functions need parentheses. -/
def pointerDeclarator (target : Ty) (declarator : String) : String :=
  match target with
  | .array _ _ | .function _ _ _ => "(*" ++ declarator ++ ")"
  | _ => "*" ++ declarator

/-- A type name in front of a declarator. -/
def declared (typeName declarator : String) : String :=
  if declarator.isEmpty then typeName else typeName ++ " " ++ declarator

/-- The parameters of a function declarator, from the texts of those that are listed. -/
def paramsText (listed : Option (List String)) (variadic : Bool) : String :=
  let texts := listed.getD []
  let texts :=
    if variadic then texts ++ ["..."]
    else if listed.isSome && texts.isEmpty then ["void"]
    else texts
  ", ".intercalate texts

mutual

/-- A declaration of `declarator` with a type; the bare type if the declarator is empty. -/
def Ty.declare : Ty → String → String
  | .pointer target, declarator => target.declare (pointerDeclarator target declarator)
  | .array element length, declarator =>
    element.declare (declarator ++ "[" ++ lengthText length ++ "]")
  | .function result params variadic, declarator =>
    result.declare (declarator ++ "(" ++ paramsText (paramTexts? params) variadic ++ ")")
  | .void, declarator => declared "void" declarator
  | .int k, declarator => declared k.name declarator
  | .float k, declarator => declared k.name declarator
  | .named name, declarator => declared name declarator
  | .composite _ name, declarator => declared ("struct " ++ name) declarator
  | .enumeration name _, declarator => declared ("enum " ++ name) declarator

def lengthText : Option Expr → String
  | none => ""
  | some e => e.text

def paramTexts? : Option (List Param) → Option (List String)
  | none => none
  | some params => some (paramTexts params)

def paramTexts : List Param → List String
  | [] => []
  | p :: rest => paramText p :: paramTexts rest

def paramText : Param → String
  | ⟨name, t⟩ => t.declare name

def Expr.text : Expr → String
  | .int v k => intText v k
  | .float bits k => Text.floatText bits ++ k.suffix
  | .globalAddress _ e => e.text
  | .string s _ => "\"" ++ Text.escapeAscii s ++ "\""
  | .lval l => l.text
  | .sizeOf t => "sizeof(" ++ t.declare "" ++ ")"
  | .cast t e => "(" ++ t.declare "" ++ ")" ++ parenthesized 15 e.precedence e.text
  | .unary op e => op.symbol ++ parenthesized 15 e.precedence e.text
  | .binary op a b =>
    parenthesized op.precedence a.precedence a.text ++ " " ++ op.symbol ++ " " ++
      parenthesized (op.precedence + 1) b.precedence b.text
  | .conditional c a b =>
    parenthesized 4 c.precedence c.text ++ " ? " ++ parenthesized 4 a.precedence a.text ++ " : " ++
      parenthesized 3 b.precedence b.text
  | .addressOf l =>
    match l with
    | .mem e .none => "&(*" ++ parenthesized 15 e.precedence e.text ++ ")"
    | l => "&" ++ l.text
  | .unresolved reason => placeholder reason

def Lval.text : Lval → String
  | .var s offset => s.name ++ offset.text
  | .mem e .none => "*" ++ parenthesized 15 e.precedence e.text
  | .mem e (.field name _ sub) =>
    parenthesized 16 e.precedence e.text ++ "->" ++ name ++ sub.text
  | .mem e offset => "(*" ++ parenthesized 15 e.precedence e.text ++ ")" ++ offset.text

def Offset.text : Offset → String
  | .none => ""
  | .field name _ sub => "." ++ name ++ sub.text
  | .index i sub => "[" ++ i.text ++ "]" ++ sub.text
  | .unresolved reason => "." ++ placeholder reason

end

def Ty.text (t : Ty) : String :=
  t.declare ""

/-- The text of an operand. -/
def Expr.operand (e : Expr) (least : Nat) : String :=
  parenthesized least e.precedence e.text

def Action.text : Action → String
  | .assign l e => l.tree.text ++ " = " ++ e.tree.text ++ ";"
  | .call target callee args =>
    let call :=
      callee.operand 16 ++ "(" ++ ", ".intercalate (args.map fun a => a.tree.text) ++ ")"
    match target with
    | some l => l.tree.text ++ " = " ++ call ++ ";"
    | none => call ++ ";"
  | .asm volatile templates =>
    "__asm__" ++ (if volatile then " volatile" else "") ++ "(" ++
      " ".intercalate (templates.map fun t => "\"" ++ Text.escapeAscii t ++ "\"") ++ ");"
  | .nop text => "/* " ++ text ++ " */;"

def Label.text : Label → String
  | .plain name => name ++ ":"
  | .case e => "case " ++ e.text ++ ":"
  | .caseRange low high => "case " ++ low.text ++ " ... " ++ high.text ++ ":"
  | .default => "default:"

/-- The margin at a depth. -/
def margin (depth : Nat) : String :=
  String.ofList (List.replicate (2 * depth) ' ')

/-- Whether a statement is an empty block without labels. -/
def Stmt.isEmpty : Stmt → Bool
  | ⟨[], .block []⟩ => true
  | _ => false

mutual

/-- The lines of a statement. Labels stand one level further out. -/
def Stmt.lines : Stmt → Nat → List String
  | ⟨labels, body⟩, depth =>
    labels.map (fun l => margin (depth - 1) ++ l.text) ++ body.lines depth

/-- The lines of a statement without its labels. -/
def StmtBody.lines : StmtBody → Nat → List String
  | .return (some e), depth => [margin depth ++ "return " ++ e.tree.text ++ ";"]
  | .return none, depth => [margin depth ++ "return;"]
  | .break, depth => [margin depth ++ "break;"]
  | .continue, depth => [margin depth ++ "continue;"]
  | .loop s, depth =>
    [margin depth ++ "while (1) \x7b"] ++ s.lines (depth + 1) ++ [margin depth ++ "\x7d"]
  | .block ss, depth => linesOf ss depth
  | .instrs is, depth => is.map fun i => margin depth ++ i.tree.text
  | .branch c t e _, depth =>
    [margin depth ++ "if (" ++ c.tree.text ++ ") \x7b"] ++ t.lines (depth + 1) ++
      (if e.isEmpty then [] else [margin depth ++ "\x7d else \x7b"] ++ e.lines (depth + 1)) ++
      [margin depth ++ "\x7d"]
  | .goto label, depth => [margin depth ++ "goto " ++ label ++ ";"]
  | .computedGoto e, depth => [margin depth ++ "goto *" ++ e.operand 15 ++ ";"]
  | .switch e s, depth =>
    [margin depth ++ "switch (" ++ e.text ++ ") \x7b"] ++ s.lines (depth + 1) ++
      [margin depth ++ "\x7d"]

/-- The lines of a list of statements. -/
def linesOf : List Stmt → Nat → List String
  | [], _ => []
  | s :: rest, depth => s.lines depth ++ linesOf rest depth

end

def Stmt.text (s : Stmt) (depth : Nat) : String :=
  "\n".intercalate (s.lines depth)

end FactLift.C
