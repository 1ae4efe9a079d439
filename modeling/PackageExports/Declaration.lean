import PackageExports.Discovery
import PackageExports.FileSystem.Walk

/-!
# Declaration files

The declaration of a file has the same base name and the extension `.d.ts`. It is looked for beside the file, at the
same place of another build directory, and where a compiler would put it.

Main definitions: `Declaration`, `Declaration.beside?`, `Declaration.find`, `Declaration.expected`.
-/

namespace PackageExports

/-- How a declaration belongs to a file. -/
inductive MappingKind where
  | exact
  | inferred
  | absent
deriving DecidableEq

/-- The outcome of looking for a declaration, paths as seen from the package. -/
structure Declaration where
  found : Bool
  kind : MappingKind
  file : Option Text := none
  source : Option Text := none
deriving DecidableEq

namespace Declaration

/-- The directory of a path and its name without the extension. -/
def place (path : Text) : Text × Text :=
  Written.split (Relative.splitExtension path).1

/-- What `directory` is below `top`, if it is `top` or below it. -/
def below? (top directory : Text) : Option Text :=
  if directory = top then some []
  else Text.dropStart? (top ++ "/") directory

def fileName (name : Text) : Text :=
  name ++ ".d.ts"

/-- The declaration beside a file, with `./` in front; a declaration is its own. -/
def beside? (fs : FileSystem) (package : Path) (file : Text) : Option Text :=
  let bare := Relative.bare file
  let candidate := if Text.endsWith bare ".d.ts" then bare else fileName (Relative.splitExtension bare).1
  if fs.isFile (package / candidate).text then some ("./" ++ candidate) else none

/-- The directories whose files are sources. -/
def sourceDirectories : List Text :=
  ["src", "source"]

/-- Where a compiler would put the declaration of a source: beside a file in a build directory, in the first build
directory for a source, else in `lib`. -/
def expected (source : Text) (buildDirectories : List Text := ["lib", "dist", "types"]) : Except Failure Text :=
  let (directory, name) := place (Relative.bare source)
  if buildDirectories.any fun top => (below? top directory).isSome then
    .ok (Written.join directory (fileName name))
  else
    match sourceDirectories.findSome? (below? · directory) with
    | some rest =>
      match buildDirectories with
      | first :: _ => .ok (Written.joinAll first [rest, fileName name])
      | [] => .error .noBuildDirectory
    | none => .ok (Written.joinAll "lib" [directory, fileName name])

/-- The declarations at the same place of the other build directories, for each build directory that the file is
in. -/
def elsewhere (directory name : Text) (buildDirectories : List Text) : List Text :=
  buildDirectories.flatMap fun top =>
    match below? top directory with
    | some rest =>
      (buildDirectories.filter (· ≠ top)).map fun other => Written.joinAll other [rest, fileName name]
    | none => []

def find (fs : FileSystem) (package : Path) (file : Text) (buildDirectories : List Text) :
    Except Failure Declaration := do
  let isFile (path : Text) : Bool := fs.isFile (package / path).text
  let bare := Relative.bare file
  if Text.endsWith bare ".d.ts" then
    let found := isFile bare
    return { found, kind := if found then .exact else .absent, file := if found then some bare else none }
  let (directory, name) := place bare
  let sibling := Written.join directory (fileName name)
  if isFile sibling then return { found := true, kind := .exact, file := some sibling, source := some bare }
  match (elsewhere directory name buildDirectories).find? isFile with
  | some other => return { found := true, kind := .inferred, file := some other, source := some bare }
  | none =>
    let emitted ← expected bare buildDirectories
    let found := isFile emitted
    return {
      found
      kind := if found then .inferred else .absent
      file := if found then some emitted else none
      source := some bare }

/-- The declaration that belongs to a source when sources are compiled into `output`. -/
def ofSource (source output : Text) : Text :=
  let (directory, name) := place (Relative.bare source)
  let rest := (sourceDirectories.findSome? (below? · directory)).getD directory
  Written.joinAll output [rest, fileName name]

/-- All declarations below build directories, as seen from the package, in order. -/
def allBelow (fs : FileSystem) (package : Path)
    (buildDirectories : List Text := ["lib", "dist", "build", "out", "types"]) : Except Failure (List Text) := do
  let found ← buildDirectories.mapM fun top => do
    let root := package / top
    let names := (fs.filesBelow root.text fun _ => true).filter fun names =>
      Text.endsWith (names.getLast?.getD []) ".d.ts"
    names.mapM fun names => SearchPlan.seenFrom package (root.join ⟨.relative, names⟩)
  return Text.sort found.flatten

/-- Whether a declaration and a source both exist and have the same base name. -/
def matches? (fs : FileSystem) (package : Path) (declaration source : Text) : Bool :=
  let declaration := Relative.bare declaration
  let source := Relative.bare source
  fs.isFile (package / declaration).text && fs.isFile (package / source).text &&
    (place declaration).2 = (place source).2

end Declaration

end PackageExports
