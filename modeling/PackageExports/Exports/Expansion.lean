import PackageExports.Declaration
import PackageExports.Exports.Conditions
import PackageExports.Naming.BuildPattern
import PackageExports.Settings.Basic
import PackageExports.SourceFile

/-!
# Two builds of one path

In a package that is built twice, a path stands for a file of each build: the naming of the builds says where they
are. The path itself may lead to a file, too.

Main definitions: `Expansion.candidates`, `Expansion.expand`.
-/

namespace PackageExports.Expansion

/-- The extensions of compiled files; a path may have its own. -/
def extensions : List Text :=
  ["", ".js", ".mjs", ".cjs"]

/-- Parts of a path with slashes between them; empty parts and `.` are left out. -/
def joinParts (parts : List Text) : Text :=
  Text.joinWith "/" (parts.filter fun part => decide (part ≠ [] ∧ part ≠ "."))

/-- What a path is below the base of either build. -/
def belowBase (path : Text) (bases : List Text) : Text :=
  let proper := bases.filter fun base => decide (base ≠ [] ∧ base ≠ ".")
  (proper.findSome? fun base => Text.dropStart? (base ++ "/") path).getD path

/-- The path of a file in a build that is named by a mark at the start of file names. -/
def markedName (side : BuildSide) (directory name : Text) : Text :=
  let separator : Text := if side.separator.isEmpty then "." else side.separator
  joinParts [directory, side.marker ++ separator ++ name]

/-- Where the two builds of a path are, without extensions. -/
def candidates (kind : PatternKind) (cjs esm : BuildSide) (path : Text) : Text × Text :=
  match kind with
  | .byDirectory =>
    let cjsBase := Relative.bare cjs.base
    let esmBase := Relative.bare esm.base
    let relative := belowBase path [cjsBase, esmBase]
    (joinParts [cjsBase, cjs.marker, relative], joinParts [esmBase, esm.marker, relative])
  | .byExtension =>
    let (directory, name) := Written.split path
    let base := joinParts [directory, (Written.splitName name).1]
    (base ++ cjs.marker, base ++ esm.marker)
  | .byNameStart =>
    let (directory, name) := Written.split path
    (markedName cjs directory name, markedName esm directory name)

/-- The file at a path, or else an index file there, with `./` in front. -/
def resolve? (fs : FileSystem) (package : Path) (extensions : List Text) (base : Text) :
    Except Failure (Option Text) :=
  if base.isEmpty then .ok none
  else
    (SearchPlan.foundFrom package (Probe.fileOrIndex? fs (package / base).text extensions)).map fun file =>
      file.map fun seen => "./" ++ seen

/-- The declaration of a path, or else the one beside the file that it leads to. -/
def typesOf? (fs : FileSystem) (package : Path) (path resolved : Text) : Option Text :=
  let declaration := Declaration.fileName (Relative.dropCompiled path)
  if fs.isFile (package / declaration).text then some ("./" ++ declaration)
  else Declaration.beside? fs package resolved

/-- The targets of a path in a package with two builds, if it leads to a file at all. -/
def expand (fs : FileSystem) (package : Path) (pattern : BuildPattern) (path : Text)
    (sourceDirectories : List Text) (extensions : List Text := extensions) : Except Failure (Option Conditions) := do
  match pattern with
  | .single => return none
  | .dual kind cjs esm =>
    let bare := Relative.bare path
    if bare = [] ∨ bare = "." then return none
    let (cjsBase, esmBase) := candidates kind cjs esm bare
    let cjsFile ← resolve? fs package extensions cjsBase
    let esmFile ← resolve? fs package extensions esmBase
    let ownFile ← resolve? fs package extensions bare
    match ownFile <|> esmFile <|> cjsFile with
    | none => return none
    | some file =>
      return some {
        source := ← SourceFile.find? fs package ("./" ++ bare) sourceDirectories
          ({} : Settings).buildDirectories
        types := typesOf? fs package bare file
        imported := esmFile
        required := cjsFile
        otherwise := some file }

end PackageExports.Expansion
