import PackageExports.FileSystem.Basic
import PackageExports.Text.Utf8

/-!
# From paths to locations

A path is followed name by name: `.` and empty names stay, `..` goes up, a link is replaced by its target. A path
that ends in a slash must lead to a directory. At most forty links are followed. A name of more than 255 bytes and a
path with a null cannot exist.

Main definitions: `AccessError`, `FileSystem.find`, `FileSystem.kind?`, `FileSystem.read`, `FileSystem.write`,
`FileSystem.realPath`.
-/

namespace PackageExports

/-- Why an entry cannot be used. -/
inductive AccessError where
  | missing
  | notDirectory
  | isDirectory
  | tooManyLinks
  | nameTooLong
  | nullInPath
  | unwritablePath
deriving DecidableEq

/-- Where a path leads: to an entry that is no link, or to a free place in a directory. -/
inductive Place where
  | present (location : Location)
  | vacant (location : Location)
deriving DecidableEq

/-- The two kinds of entries that a path can lead to. -/
inductive Kind where
  | file
  | directory
deriving DecidableEq

namespace FileSystem

/-- How many links are followed on the way to one entry. -/
def linkLimit : Nat :=
  40

/-- Follows names from a directory; `onLink` goes on from the start and the names of a link's target. -/
def walkNames (fs : FileSystem) (onLink : Location → List Text → Except AccessError Place) (here : Location) :
    List Text → Except AccessError Place
  | [] => .ok (.present here)
  | name :: rest =>
    if name = [] ∨ name = "." then walkNames fs onLink here rest
    else if name = ".." then walkNames fs onLink here.dropLast rest
    else if 255 < Utf8.byteLength name then .error .nameTooLong
    else
      match fs.entryAt? (here ++ [name]) with
      -- only the last name may still be free
      | none => if rest = [] then .ok (.vacant (here ++ [name])) else .error .missing
      | some .directory => walkNames fs onLink (here ++ [name]) rest
      | some (.file _) => if rest = [] then .ok (.present (here ++ [name])) else .error .notDirectory
      | some (.link target) =>
        onLink (if Text.startsWith target "/" then [] else here) (Text.splitOn '/' target ++ rest)

/-- Follows names from a directory through at most `links` links. -/
def follow (fs : FileSystem) : (links : Nat) → Location → List Text → Except AccessError Place
  | 0 => walkNames fs fun _ _ => .error .tooManyLinks
  | links + 1 => walkNames fs (follow fs links)

def place (fs : FileSystem) (path : Text) : Except AccessError Place :=
  if path.any (·.val == 0) then .error .nullInPath
  else if path.any CodePoint.isSurrogate then .error .unwritablePath
  else if path.isEmpty then .error .missing
  else fs.follow linkLimit (if Text.startsWith path "/" then [] else fs.workingDirectory) (Text.splitOn '/' path)

def find (fs : FileSystem) (path : Text) : Except AccessError Location :=
  match fs.place path with
  | .ok (.present location) => .ok location
  | .ok (.vacant _) => .error .missing
  | .error e => .error e

def kind? (fs : FileSystem) (path : Text) : Option Kind :=
  match fs.find path with
  | .ok location =>
    match fs.entryAt? location with
    | some (.file _) => some .file
    | some .directory => some .directory
    | _ => none
  | .error _ => none

def isFile (fs : FileSystem) (path : Text) : Bool :=
  fs.kind? path = some .file

def isDirectory (fs : FileSystem) (path : Text) : Bool :=
  fs.kind? path = some .directory

/-- Whether a path leads to an entry of a wanted kind, or to any; here a name that is too long is an error. -/
def check (fs : FileSystem) (path : Text) (wanted : Option Kind) : Except AccessError Bool :=
  match fs.find path with
  | .error .nameTooLong => .error .nameTooLong
  | .error _ => .ok false
  | .ok _ => .ok (wanted.isNone || fs.kind? path = wanted)

def read (fs : FileSystem) (path : Text) : Except AccessError (List UInt8) :=
  match fs.find path with
  | .ok location =>
    match fs.entryAt? location with
    | some (.file content) => .ok content
    | _ => .error .isDirectory
  | .error e => .error e

/-- The file system after bytes were written to the file that a path leads to, which is made if its place is free. -/
def write (fs : FileSystem) (path : Text) (content : List UInt8) : Except AccessError FileSystem :=
  match fs.place path with
  | .ok (.vacant location) => .ok (fs.put location (.file content))
  | .ok (.present location) =>
    match fs.entryAt? location with
    | some (.file _) => .ok (fs.put location (.file content))
    | _ => .error .isDirectory
  | .error e => .error e

/-- Follows names as far as there are entries; what is missing is taken as it is written. -/
def reckonNames (fs : FileSystem) (onLink : Location → List Text → Location) (here : Location) :
    List Text → Location
  | [] => here
  | name :: rest =>
    if name = [] ∨ name = "." then reckonNames fs onLink here rest
    else if name = ".." then reckonNames fs onLink here.dropLast rest
    else
      match fs.entryAt? (here ++ [name]) with
      | some (.link target) =>
        onLink (if Text.startsWith target "/" then [] else here) (Text.splitOn '/' target ++ rest)
      | _ => reckonNames fs onLink (here ++ [name]) rest

/-- `reckonNames` through at most `links` links; the names after the last of them are taken as they are written. -/
def reckon (fs : FileSystem) : (links : Nat) → Location → List Text → Location
  | 0 => reckonNames fs fun here names => here ++ names
  | links + 1 => reckonNames fs (reckon fs links)

/-- The location that a path means, whether or not there is an entry. -/
def realPath (fs : FileSystem) (p : Path) : Location :=
  fs.reckon linkLimit (if p.anchor = .relative then fs.workingDirectory else []) p.segments

/-- The path that leads to a location without links. -/
def pathTo (location : Location) : Path :=
  ⟨.absolute, location⟩

end FileSystem

end PackageExports
