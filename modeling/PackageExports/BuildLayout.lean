import PackageExports.CompilerOptions
import PackageExports.Declaration
import PackageExports.Manifest.Repository

/-!
# The layout of a build

Which of the usual build and source directories a package has, what its compiler options and its manifest say about
places, and whether compiled files lie where their sources do. Settings that fit the package follow from that.

Main definitions: `BuildLayout`, `BuildLayout.detect`, `BuildLayout.recommend`.
-/

namespace PackageExports

/-- Where declarations and compiled files are, as found and as the compiler options say. -/
structure TypesLayout where
  hasDeclarations : Bool := false
  declarationDirectory : Option Text := none
  outputDirectory : Option Text := none
  rootDirectory : Option Text := none
deriving DecidableEq

/-- The places that a manifest names. -/
structure ManifestPlaces where
  main : Option Text := none
  module : Option Text := none
  types : Option Text := none
  hasExports : Bool := false
deriving DecidableEq

/-- What compiled files are like. -/
structure BuildFiles where
  hasIndexFiles : Bool := false
  commonExtensions : List Text := []
  count : Nat := 0
deriving DecidableEq

/-- The layout of a package. -/
structure BuildLayout where
  buildDirectories : List Text := []
  sourceDirectories : List Text := []
  keepsStructure : Bool := false
  types : TypesLayout := {}
  manifest : ManifestPlaces := {}
  files : BuildFiles := {}
deriving DecidableEq

/-- How often each item of a list occurs, in the order of first occurrences. -/
def tally {α : Type} [DecidableEq α] (items : List α) : Keyed α Nat :=
  items.foldl (fun counts a => counts.insert a ((counts.get? a).getD 0 + 1)) []

/-- The items of a list, those that occur more often first and equally frequent ones by first occurrence. -/
def byFrequency {α : Type} [DecidableEq α] (items : List α) : List α :=
  ((tally items).mergeSort fun a b => b.2 ≤ a.2).map Prod.fst

namespace BuildLayout

def usualBuildDirectories : List Text :=
  ["lib", "dist", "build", "out", "output", "compiled", "types", "esm", "cjs", "umd"]

def usualSourceDirectories : List Text :=
  ["src", "source", "lib-src", "packages"]

def compiledEndings : List Text :=
  [".js", ".mjs", ".cjs", ".d.ts"]

def sourceEndings : List Text :=
  [".ts", ".tsx", ".js", ".jsx"]

/-- How many entries of a directory and how many files of a source directory are looked at. -/
def sampleSize : Nat :=
  5

/-- The directories of a package, out of given names, in which a name has one of some endings. -/
def directoriesWith (fs : FileSystem) (package : Path) (names endings : List Text) : List Text :=
  names.filter fun name =>
    let path := (package.child name).text
    fs.isDirectory path && (fs.list path).any fun entry => Text.endsWithAny entry endings

def buildDirectoriesOf (fs : FileSystem) (package : Path) : List Text :=
  directoriesWith fs package usualBuildDirectories compiledEndings

def sourceDirectoriesOf (fs : FileSystem) (package : Path) : List Text :=
  directoriesWith fs package usualSourceDirectories sourceEndings

/-- At most `limit` files below the directory at the end of `names`, each by the names that lead to it, found by going
into directories in the order of names. At most `depth` directories lie within each other. -/
def sample (fs : FileSystem) (top : Path) : (depth : Nat) → (names : List Text) → (limit : Nat) → List (List Text)
  | 0, _, _ => []
  | depth + 1, names, limit =>
    -- entries that give no file take up places of the listing, too
    ((fs.list (top.join ⟨.relative, names⟩).text).take limit).foldl
      (fun files name =>
        let path := (top.join ⟨.relative, names ++ [name]⟩).text
        if limit ≤ files.length then files
        else if fs.isFile path then files ++ [names ++ [name]]
        else if fs.isDirectory path then files ++ sample fs top depth (names ++ [name]) (limit - files.length)
        else files)
      []

/-- A number of directories that no path can have within each other: between two links it cannot enter the same
directory twice. -/
def depthLimit (fs : FileSystem) : Nat :=
  (fs.entries.length + 1) * (FileSystem.linkLimit + 1)

/-- Whether each file sampled from the source directories has a `.js` file at the same place of a build directory. -/
def keepsStructureOf (fs : FileSystem) (package : Path) (sources builds : List Text) : Bool :=
  !sources.isEmpty && !builds.isEmpty &&
    sources.all fun source =>
      (sample fs (package.child source) (depthLimit fs) [] sampleSize).all fun names =>
        let stem := (Written.splitSuffix (Text.joinWith "/" names)).1
        builds.any fun build => fs.isFile (package / build / (stem ++ ".js")).text

def firstSegment (path : Text) : Text :=
  path.takeWhile (· != CodePoint.ofChar '/')

def typesLayoutOf (fs : FileSystem) (package : Path) (builds : List Text) : Attempt TypesLayout := do
  let declarations ← Attempt.ofExcept (Declaration.allBelow fs package builds)
  let options := CompilerOptions.ofMembers (← ExceptT.lift (fs.readCompilerSettings package))
  return {
    hasDeclarations := !declarations.isEmpty
    declarationDirectory := options.declarations <|> (byFrequency (declarations.map firstSegment)).head?
    outputDirectory := options.output
    rootDirectory := options.root }

/-- The places that the manifest of a package names; none if it cannot be read. -/
def manifestPlacesOf (fs : FileSystem) (package : Path) : ManifestPlaces :=
  match fs.readManifest (package.child Package.manifestName) with
  | .error _ => {}
  | .ok members =>
    let text (name : Text) : Option Text := (members.value? name).bind Json.nonemptyText?
    { main := text "main"
      module := text "module"
      types := text "types" <|> text "typings"
      hasExports := (members.value? "exports").any Json.isTruthy }

def extensionOf (name : Text) : Text :=
  if Text.endsWith name ".d.ts" then ".d.ts" else (Written.splitName name).2

def buildFilesOf (fs : FileSystem) (package : Path) (builds : List Text) : BuildFiles :=
  let names := builds.flatMap fun build =>
    (fs.filesBelow (package.child build).text fun _ => true).map fun names => names.getLast?.getD []
  { hasIndexFiles := names.any (Text.startsWith · "index.")
    commonExtensions := (byFrequency (names.map extensionOf)).take 5
    count := names.length }

def detect (fs : FileSystem) (package : Path) : Attempt BuildLayout := do
  let builds := buildDirectoriesOf fs package
  let sources := sourceDirectoriesOf fs package
  return {
    buildDirectories := builds
    sourceDirectories := sources
    keepsStructure := keepsStructureOf fs package sources builds
    types := ← typesLayoutOf fs package builds
    manifest := manifestPlacesOf fs package
    files := buildFilesOf fs package builds }

/-- The first segment of a directory inside the package, if the directory is one. -/
def topLevel? (directory : Text) : Option Text :=
  let clean := Written.normalize (Relative.bare directory)
  if clean = "." ∨ clean = [] ∨ Text.startsWith clean ".." then none
  else some (firstSegment clean)

/-- The named directories and then the detected ones, each once, or a fallback if there are none. -/
def choose (named : List (Option Text)) (detected fallback : List Text) : List Text :=
  let chosen := Text.dedup ((named.filterMap fun d => d.bind topLevel?) ++ detected |>.filter (!·.isEmpty))
  if chosen.isEmpty then fallback else chosen

/-- The settings with the directories of a layout; those that the compiler options name come first. -/
def recommend (layout : BuildLayout) (base : Settings) : Settings :=
  { base with
    buildDirectories :=
      choose [layout.types.outputDirectory, layout.types.declarationDirectory] layout.buildDirectories
        base.buildDirectories
    sourceDirectories := choose [layout.types.rootDirectory] layout.sourceDirectories base.sourceDirectories }

end BuildLayout

end PackageExports
