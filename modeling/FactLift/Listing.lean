import FactLift.C.Print
import FactLift.Lift.Function
import FactLift.Symbols.Closure

/-! Listings: a lifted function as C text.

The composites that the variables of the function lead to come first, then the function with its
local variables and its body. -/

namespace FactLift

open C

def fieldLine (f : Field) : String :=
  "  " ++ f.type.declare f.name ++ ";" ++
    match f.offset with
    | some offset => s!" // offset {offset.toInt}"
    | none => ""

def compositeLines (c : Composite) : List String :=
  [(if c.isUnion then "union " else "struct ") ++ c.name ++ " \x7b"] ++ c.fields.map fieldLine ++
    ["\x7d;", ""]

/-- The definition of the composite under a key, or a note that there is none. -/
def definitionLines (g : Globals) (key : Nat) : List String :=
  match g.composite? key with
  | some c => compositeLines c
  | none => [s!"// composite {key} is not defined"]

def parameterText (s : Symbol) : String :=
  match s.type with
  | some t => t.declare s.name
  | none => "int " ++ s.name

/-- The line of a local variable. Without a type it is an `int`, and its description says what it
stands for. -/
def localLine (s : Symbol) : String :=
  match s.type, s.description with
  | some t, _ => "  " ++ t.declare s.name ++ ";"
  | none, some d => "  int " ++ s.name ++ "; // " ++ d
  | none, none => "  int " ++ s.name ++ ";"

namespace LiftedFunction

/-- The local variables that are not parameters, by name. -/
def localVariables (f : LiftedFunction) : List Symbol :=
  f.locals.all.filter fun s => s.parameter.isNone

/-- The keys that the types of the parameters and local variables mention. -/
def mentionedKeys (f : LiftedFunction) : List Nat :=
  ((f.locals.parameters ++ f.localVariables).filterMap (·.type)).flatMap Ty.keys

/-- The type of the result: that of the global function with its name, or `int`. -/
def resultType (f : LiftedFunction) (g : Globals) : Ty :=
  match (g.named? f.name).bind (·.type) with
  | some (.function result _ _) => result
  | _ => .int .int

/-- The first line of the function. -/
def headLine (f : LiftedFunction) (g : Globals) : String :=
  let params := match f.locals.parameters with
    | [] => "void"
    | formals => ", ".intercalate (formals.map parameterText)
  (f.resultType g).declare (f.name ++ "(" ++ params ++ ")") ++ " \x7b"

/-- The lines of the function itself, with one of the two bodies. -/
def functionLines (f : LiftedFunction) (g : Globals) (body : Stmt) : List String :=
  let bodyText := body.text 1
  [f.headLine g] ++ f.localVariables.map localLine ++
    (if f.localVariables.isEmpty then [] else [""]) ++
    (if bodyText.isEmpty then [] else [bodyText]) ++ ["\x7d"]

def listingLines (f : LiftedFunction) (g : Globals) (body : Stmt) : List String :=
  (g.closure f.mentionedKeys).flatMap (definitionLines g) ++ f.functionLines g body

/-- The listing, with one of the two bodies. -/
def listing (f : LiftedFunction) (g : Globals) (body : Stmt) : String :=
  String.join ((f.listingLines g body).map (· ++ "\n"))

end LiftedFunction

end FactLift
