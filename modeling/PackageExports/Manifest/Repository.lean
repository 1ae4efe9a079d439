import PackageExports.FileSystem.Walk
import PackageExports.Json.Reader
import PackageExports.Manifest.Basic
import PackageExports.World

/-!
# The packages of a repository

A package is a directory with a manifest that has a name. The packages below a directory are found by a walk that
leaves out directories with ignored names; a manifest that cannot be read is passed over with a warning.

Main definitions: `Package`, `FileSystem.readManifest`, `Package.findAll`, `Package.namesBelow`,
`FileSystem.dependencies`.
-/

namespace PackageExports

/-- A package by its name and its directory. -/
structure Package where
  name : Text
  directory : Path
deriving DecidableEq

def FileSystem.readManifest (fs : FileSystem) (path : Path) : Except Cause (Json.Members) := do
  match Json.parse (← fs.readText path.text) with
  | .ok (.object members) => return members
  | .ok _ => .error .notObject
  | .error refusal => .error (.ofRefusal refusal)

namespace Package

def manifestName : Text :=
  "package.json"

def manifest (p : Package) : Path :=
  p.directory.child manifestName

/-- The directories below `root` that have a manifest, by path. -/
def directoriesBelow (fs : FileSystem) (root : Path) (ignored : List Text) : List Path :=
  (fs.filesBelow root.text fun name => !ignored.contains name).filterMap fun names =>
    if names.getLast? = some manifestName then some (root.join ⟨.relative, names.dropLast⟩) else none

/-- The package in a directory with the members of its manifest, if that has a name. -/
def readIn (fs : FileSystem) (directory : Path) : Noted (Option (Package × Json.Members)) :=
  let path := directory.child manifestName
  match fs.readManifest path with
  | .error c => do
    Noted.note (.unparsed path c)
    return none
  | .ok members =>
    return ((members.value? "name").bind Json.nonemptyText?).map fun name => (⟨name, directory⟩, members)

def readAll (fs : FileSystem) : List Path → Noted (List (Package × Json.Members))
  | [] => pure []
  | directory :: rest => do
    let first ← readIn fs directory
    let others ← readAll fs rest
    return first.toList ++ others

/-- The packages below `root`, by path. -/
def findAll (fs : FileSystem) (root : Path) (ignored : List Text) : Noted (List Package) :=
  List.map Prod.fst <$> readAll fs (directoriesBelow fs root ignored)

/-- Whether a manifest says that its package is private. -/
def saysPrivate (members : Json.Members) : Bool :=
  match members.value? "private" with
  | some (.bool true) => true
  | _ => false

/-- The names of the packages below `root`, in order and without repetition. -/
def namesBelow (fs : FileSystem) (root : Path) (privateOnly : Bool) (ignored : List Text) : Noted (List Text) := do
  let found ← readAll fs (directoriesBelow fs root ignored)
  let wanted := found.filter fun (_, members) => !privateOnly || saysPrivate members
  return Text.sort (Text.dedup (wanted.map fun (p, _) => p.name))

end Package

/-- The version ranges in a section of dependencies. -/
def rangesOf : Option Json → List (Text × Text)
  | some (.object members) => members.filterMap fun (name, value) => value.text?.map fun range => (name, range)
  | _ => []

/-- The version ranges of all dependencies in a manifest, those of later sections replacing earlier ones. -/
def dependenciesOf (members : Json.Members) : Keyed Text Text :=
  Keyed.ofPairs <| ["dependencies", "devDependencies", "peerDependencies"].flatMap fun name =>
    rangesOf (members.value? (Text.ofString name))

def FileSystem.dependencies (fs : FileSystem) (directory : Path) : Attempt (Keyed Text Text) := do
  let path := directory.child Package.manifestName
  if ← Attempt.ofAccess (fs.check path.text none) then
    match fs.readManifest path with
    | .error c =>
      Attempt.note (.versionsUnknown path c)
      return []
    | .ok members => return dependenciesOf members
  else return []

end PackageExports
