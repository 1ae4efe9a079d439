import PackageExports.Exports.Expansion
import PackageExports.Settings.Basic

/-!
# The export of one path

A path that is imported gets its targets from the first of several strategies that finds any: the file is in a build
directory, the file is in one of two builds, there is a source from which it will be built, or, with a warning, it is
taken to be where compiled files usually are.

Main definitions: `EntryRequest`, `Strategy`, `EntryRequest.conditions`.
-/

namespace PackageExports

/-- An imported path and what there is to know about its package. -/
structure EntryRequest where
  path : Text
  package : Path
  pattern : BuildPattern := .single
  buildDirectories : List Text := ({} : Settings).buildDirectories
  sourceDirectories : List Text := ({} : Settings).sourceDirectories

/-- A way to find the targets of a path. -/
inductive Strategy where
  | exactMatch
  | expansion
  | prediction
  | assumption
deriving DecidableEq

namespace Strategy

/-- The usual order of strategies. -/
def standard : List Strategy :=
  [exactMatch, expansion, prediction, assumption]

/-- The order of strategies for whole packages. -/
def expansionFirst : List Strategy :=
  [expansion, exactMatch, prediction, assumption]

end Strategy

namespace EntryRequest

/-- The path without `./` and without slashes at the end; the package itself is `index`. -/
def cleanPath (r : EntryRequest) : Text :=
  let clean := Text.trimEnd '/' (Relative.bare r.path)
  if clean = [] ∨ clean = "." then "index" else clean

/-- The first segment of the path if it is a build directory. -/
def namedDirectory (r : EntryRequest) : Option Text :=
  let head := r.cleanPath.takeWhile (· != CodePoint.ofChar '/')
  if head ∈ r.buildDirectories then some head else none

/-- The path below the build directory that it names. -/
def subpath (r : EntryRequest) : Text :=
  match r.namedDirectory with
  | none | some [] => r.cleanPath
  | some directory =>
    let rest := r.cleanPath.drop (directory.length + 1)
    if rest.isEmpty then "index" else rest

/-- The directory in which the path will be once it is built. -/
def outputDirectory (r : EntryRequest) : Text :=
  match r.namedDirectory with
  | none | some [] => "lib"
  | some directory => directory

/-- The path below its build directory, without the extension of a compiled file. -/
def outputStem (r : EntryRequest) : Text :=
  Relative.dropCompiled r.subpath

/-- The extensions with which the path is looked for in build directories. -/
def exactExtensions : List Text :=
  ["", ".js", ".ts", ".jsx", ".tsx", ".mjs", ".cjs"]

/-- A path that ends in a TypeScript extension, possibly with a line end after it, without the extension, and the line
end. -/
def cutTypeScript? (path : Text) : Option (Text × Text) :=
  let (line, lineEnd) : Text × Text := match Text.dropEnd? "\n" path with
    | some line => (line, "\n")
    | none => (path, [])
  ((Text.dropEnd? ".ts" line <|> Text.dropEnd? ".tsx" line).map fun stem => (stem, lineEnd))

/-- The build directories in which the path is looked for, with the path below each. -/
def searchRoots (r : EntryRequest) : List (Text × Text) :=
  match r.namedDirectory with
  | none | some [] => r.buildDirectories.map fun directory => (directory, r.cleanPath)
  | some directory => [(directory, r.subpath)]

/-- The targets of a file found in a build directory. TypeScript there is compiled in place. -/
def builtConditions (fs : FileSystem) (r : EntryRequest) (directory file : Text) : Except Failure Conditions := do
  let compiled : Text := match cutTypeScript? file with
    | some (stem, lineEnd) => stem ++ ".js" ++ lineEnd
    | none => file
  let target := "./" ++ directory ++ "/" ++ compiled
  return {
    source := ← SourceFile.find? fs r.package target r.sourceDirectories r.buildDirectories
    types := Declaration.beside? fs r.package (directory ++ "/" ++ file)
    imported := if (cutTypeScript? file).isSome then some target else none
    otherwise := some target }

def exactMatchBelow (fs : FileSystem) (r : EntryRequest) (directory relative : Text) :
    Except Failure (Option Conditions) := do
  let root := r.package / directory
  match ← SearchPlan.foundFrom root (Probe.fileOrIndex? fs (root / relative).text exactExtensions) with
  | none => return none
  | some file => return some (← builtConditions fs r directory file)

def exactMatchIn (fs : FileSystem) (r : EntryRequest) : List (Text × Text) → Except Failure (Option Conditions)
  | [] => .ok none
  | (directory, relative) :: rest => do
    match ← exactMatchBelow fs r directory relative with
    | none => exactMatchIn fs r rest
    | some found => return some found

def exactMatch (fs : FileSystem) (r : EntryRequest) : Except Failure (Option Conditions) :=
  exactMatchIn fs r r.searchRoots

def expansion (fs : FileSystem) (r : EntryRequest) : Except Failure (Option Conditions) :=
  Expansion.expand fs r.package r.pattern r.path r.sourceDirectories

/-- The targets of the path if its source is a file below a directory. -/
def predictedConditions (r : EntryRequest) (directory file : Text) : Conditions :=
  let output : Text := match cutTypeScript? file with
    | some (stem, lineEnd) => stem ++ lineEnd
    | none => file
  let target := "./" ++ r.outputDirectory ++ "/" ++ output ++ ".js"
  { source := some ("./" ++ directory ++ "/" ++ file)
    types := some ("./" ++ r.outputDirectory ++ "/" ++ output ++ ".d.ts")
    imported := some target
    otherwise := some target }

/-- The targets of the path if it has a source in a directory. -/
def predictionBelow (fs : FileSystem) (r : EntryRequest) (directory : Text) : Except Failure (Option Conditions) := do
  let root := r.package / directory
  let found ← SearchPlan.foundFrom root (Probe.fileOrIndex? fs (root / r.outputStem).text [".ts", ".tsx"])
  return found.map (predictedConditions r directory)

def predictionIn (fs : FileSystem) (r : EntryRequest) : List Text → Except Failure (Option Conditions)
  | [] => .ok none
  | directory :: rest => do
    match ← predictionBelow fs r directory with
    | none => predictionIn fs r rest
    | some found => return some found

def prediction (fs : FileSystem) (r : EntryRequest) : Except Failure (Option Conditions) :=
  predictionIn fs r r.sourceDirectories

/-- The usual targets of the path, with a warning. -/
def assumption (fs : FileSystem) (r : EntryRequest) : Attempt Conditions := do
  Attempt.note (.importUnresolved r.path r.package)
  let base := "./" ++ r.outputDirectory ++ "/" ++ r.outputStem
  let target := base ++ ".js"
  return {
    source := ← Attempt.ofExcept
      (SourceFile.find? fs r.package target r.sourceDirectories r.buildDirectories)
    types := some (base ++ ".d.ts")
    otherwise := some target }

/-- The targets that a strategy finds. -/
def apply (fs : FileSystem) (r : EntryRequest) : Strategy → Attempt (Option Conditions)
  | .exactMatch => Attempt.ofExcept (exactMatch fs r)
  | .expansion => Attempt.ofExcept (expansion fs r)
  | .prediction => Attempt.ofExcept (prediction fs r)
  | .assumption => some <$> assumption fs r

/-- The targets of the path by the first strategy that finds any. -/
def conditions (fs : FileSystem) (r : EntryRequest) : List Strategy → Attempt Conditions
  | [] => assumption fs r
  | s :: rest => do
    match ← apply fs r s with
    | some found => return found
    | none => conditions fs r rest

end EntryRequest

end PackageExports
