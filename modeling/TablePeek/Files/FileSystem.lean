import TablePeek.Columnar.Stored
import TablePeek.Files.Path

set_option autoImplicit false

namespace TablePeek

inductive FileError where
  | notFound
  | exists
  | notDirectory
  | isDirectory
  | nameTooLong
  | nulInPath
  | notText
  | other (message : String)
deriving DecidableEq, Repr

def FileError.message : FileError → String
  | .notFound => "No such file or directory (os error 2)"
  | .exists => "File exists (os error 17)"
  | .notDirectory => "Not a directory (os error 20)"
  | .isDirectory => "Is a directory (os error 21)"
  | .nameTooLong => "File name too long (os error 36)"
  | .nulInPath => "file name contained an unexpected NUL byte"
  | .notText => "stream did not contain valid UTF-8"
  | .other message => message

inductive Content where
  | bytes (bs : Utf8.Bytes)
  | stored (s : StoredTable)
deriving DecidableEq

inductive Node where
  | directory
  | file (c : Content)
deriving DecidableEq

-- The names that lead to a place from the root, the innermost first.
abbrev Location := List Name

structure FileSystem where
  nodes : List (Location × Node)
  home : Location
deriving DecidableEq

namespace FileSystem

def directoriesTo : Location → List (Location × Node)
  | [] => []
  | n :: rest => (n :: rest, .directory) :: directoriesTo rest

def empty (home : Location) : FileSystem := ⟨directoriesTo home, home⟩

def node? (fs : FileSystem) (l : Location) : Option Node :=
  match l with
  | [] => some .directory
  | l => fs.nodes.lookup l

def set (fs : FileSystem) (l : Location) (node : Node) : FileSystem :=
  { fs with nodes := (l, node) :: fs.nodes }

def maxName : Nat := 255

def maxPath : Nat := 4095

def checkPath (p : Path) : Except FileError Unit :=
  if p.contains 0 then .error .nulInPath
  else if p.isEmpty then .error .notFound
  else if maxPath < p.length then .error .nameTooLong
  else .ok ()

def start (fs : FileSystem) (p : Path) : Location := if p.isAbsolute then [] else fs.home

def enter (fs : FileSystem) (l : Location) (n : Name) : Except FileError Location :=
  if fs.node? l ≠ some .directory then .error .notDirectory
  else if n.isStill then .ok l
  else if n = Name.up then .ok l.tail
  else if maxName < n.length then .error .nameTooLong
  else if (fs.node? (n :: l)).isNone then .error .notFound
  else .ok (n :: l)

def walk (fs : FileSystem) : Location → List Name → Except FileError Location
  | l, [] => .ok l
  | l, n :: rest =>
    match fs.enter l n with
    | .error e => .error e
    | .ok next => fs.walk next rest

def find (fs : FileSystem) (p : Path) : Except FileError Node :=
  match checkPath p with
  | .error e => .error e
  | .ok () =>
    match fs.walk (fs.start p) p.parts with
    | .error e => .error e
    | .ok l => (fs.node? l).elim (.error .notFound) .ok

def placeFor (fs : FileSystem) (l : Location) (n : Name) : Except FileError Location :=
  if fs.node? l ≠ some .directory then .error .notDirectory
  else if n.isStill || n = Name.up then .error .isDirectory
  else if maxName < n.length then .error .nameTooLong
  else if fs.node? (n :: l) = some .directory then .error .isDirectory
  else .ok (n :: l)

-- A path that ends with a slash asks for a directory.
def locateNew (fs : FileSystem) (p : Path) : Except FileError Location :=
  match checkPath p with
  | .error e => .error e
  | .ok () =>
    let names := (p.parts.reverse.dropWhile List.isEmpty).reverse
    match fs.walk (fs.start p) names.dropLast with
    | .error e => .error e
    | .ok l =>
      if p.getLast? = some Path.slash then .error .isDirectory
      else fs.placeFor l (names.getLastD [])

def write (fs : FileSystem) (p : Path) (c : Content) : Except FileError FileSystem :=
  (fs.locateNew p).map fun l => fs.set l (.file c)

-- Directories made before a failure stay.
def makeAll (fs : FileSystem) (l : Location) : List Name → FileSystem × Except FileError Unit
  | [] => (fs, .ok ())
  | n :: rest =>
    if n.isStill then fs.makeAll l rest
    else if n = Name.up then fs.makeAll l.tail rest
    else if maxName < n.length then (fs, .error .nameTooLong)
    else
      match fs.node? (n :: l) with
      | some .directory => fs.makeAll (n :: l) rest
      | some (.file _) => (fs, .error (if rest.isEmpty then .exists else .notDirectory))
      | none => (fs.set (n :: l) .directory).makeAll (n :: l) rest

def makeDirectories (fs : FileSystem) (p : Path) : FileSystem × Except FileError Unit :=
  match checkPath p with
  | .error e => (fs, .error e)
  | .ok () => fs.makeAll (fs.start p) p.parts

end FileSystem

end TablePeek
