/-! The arithmetic types of C, sized for a 32-bit machine. -/

namespace FactLift.C

/-- The integer types. -/
inductive IntKind
  | char | schar | uchar | bool | int | uint | short | ushort | long | ulong | longLong | ulongLong
deriving DecidableEq, Repr

namespace IntKind

def all : List IntKind :=
  [char, schar, uchar, bool, int, uint, short, ushort, long, ulong, longLong, ulongLong]

/-- The name in the facts. -/
def code : IntKind → String
  | char => "ichar"
  | schar => "ischar"
  | uchar => "iuchar"
  | bool => "ibool"
  | int => "iint"
  | uint => "iuint"
  | short => "ishort"
  | ushort => "iushort"
  | long => "ilong"
  | ulong => "iulong"
  | longLong => "ilonglong"
  | ulongLong => "iulonglong"

/-- The kind with a given name in the facts. -/
def ofCode? (code : String) : Option IntKind :=
  all.find? fun k => k.code == code

/-- The name in C. -/
def name : IntKind → String
  | char => "char"
  | schar => "signed char"
  | uchar => "unsigned char"
  | bool => "bool"
  | int => "int"
  | uint => "unsigned int"
  | short => "short"
  | ushort => "unsigned short"
  | long => "long"
  | ulong => "unsigned long"
  | longLong => "long long"
  | ulongLong => "unsigned long long"

/-- The size in bytes. -/
def size : IntKind → Nat
  | char | schar | uchar | bool => 1
  | short | ushort => 2
  | int | uint | long | ulong => 4
  | longLong | ulongLong => 8

/-- Whether values have a sign. -/
def isSigned : IntKind → Bool
  | char | schar | int | short | long | longLong => true
  | _ => false

/-- The usual kind of the same size, with or without a sign. -/
def withSign (k : IntKind) (signed : Bool) : IntKind :=
  match k.size, signed with
  | 1, true => schar
  | 1, false => uchar
  | 2, true => short
  | 2, false => ushort
  | 8, true => longLong
  | 8, false => ulongLong
  | _, true => int
  | _, false => uint

/-- What a literal of the kind ends in. -/
def suffix : IntKind → String
  | uint => "U"
  | long => "L"
  | ulong => "UL"
  | longLong => "LL"
  | ulongLong => "ULL"
  | _ => ""

end IntKind

/-- The floating-point types. -/
inductive FloatKind
  | float | double | longDouble
deriving DecidableEq, Repr

namespace FloatKind

def all : List FloatKind :=
  [float, double, longDouble]

def code : FloatKind → String
  | float => "float"
  | double => "fdouble"
  | longDouble => "flongdouble"

def ofCode? (code : String) : Option FloatKind :=
  all.find? fun k => k.code == code

def name : FloatKind → String
  | float => "float"
  | double => "double"
  | longDouble => "long double"

def size : FloatKind → Nat
  | float => 4
  | double => 8
  | longDouble => 16

/-- What a literal of the kind ends in. -/
def suffix : FloatKind → String
  | float => "f"
  | double => ""
  | longDouble => "L"

end FloatKind

end FactLift.C
