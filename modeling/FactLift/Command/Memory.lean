import FactLift.Command.Run

/-! Files kept in memory, for runs that touch no disk.

A place is given by the names that lead to it from the root. A path is followed part by part: every
part before the last has to be a directory, empty parts and `.` stay where they are, and `..` goes
back one level. The last part is the name of a file. -/

namespace FactLift.Command

def maxNameBytes : Nat := 255

def maxPathBytes : Nat := 4095

/-- Whether a part of a path can be the name of a file. -/
def isFileName (part : String) : Bool :=
  part != "" && part != "." && part != ".." && part.utf8ByteSize ≤ maxNameBytes

/-- Directories and files, by place. The root is a directory whether it is listed or not. A file
whose contents are no text has none. -/
structure Memory where
  directories : List (List String)
  files : List (List String × Option String) := []

namespace Memory

def isDirectory (m : Memory) (place : List String) : Bool :=
  place.isEmpty || m.directories.contains place

/-- Follows one part of a path from a directory to a directory. -/
def enter? (m : Memory) (place : List String) (part : String) : Option (List String) :=
  if part == "" || part == "." then some place
  else if part == ".." then some place.dropLast
  else if m.isDirectory (place ++ [part]) then some (place ++ [part])
  else none

/-- The place of the file at a path, whether there is one or not, if the way to it exists and it can
have the name. -/
def locate? (m : Memory) (path : String) : Option (List String) := do
  guard (path.utf8ByteSize ≤ maxPathBytes && !path.toList.contains '\x00')
  let parts := path.splitOn "/"
  let name ← parts.getLast?
  guard (isFileName name)
  let place := (← parts.dropLast.foldlM m.enter? []) ++ [name]
  guard !m.isDirectory place
  return place

/-- The text of the file at a place, if there is one. -/
def text? (m : Memory) (place : List String) : Option String :=
  (m.files.lookup place).join

def insert (m : Memory) (place : List String) (contents : Option String) : Memory :=
  { m with files := m.files.filter (fun (p, _) => p != place) ++ [(place, contents)] }

def within (m : Memory) (directory : List String) : List (String × String) :=
  m.files.filterMap fun (place, contents) =>
    match contents, place.getLast? with
    | some text, some name => if place.dropLast == directory then some (name, text) else none
    | _, _ => none

end Memory

/-- Reading and writing files in memory. -/
def memoryFiles : Files (StateM Memory) where
  read path := do
    let m ← get
    match (m.locate? path).bind (m.files.lookup ·) with
    | some (some text) => return .ok text
    | some none => return .error "not a text"
    | none => return .error "no such file"
  write path text := do
    let m ← get
    match m.locate? path with
    | some place =>
      set (m.insert place (some text))
      return .ok ()
    | none => return .error "no such directory"

end FactLift.Command
