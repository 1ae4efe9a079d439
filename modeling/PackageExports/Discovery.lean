import PackageExports.Decimal.Fixed
import PackageExports.Failure
import PackageExports.Path.Written
import PackageExports.Probe

/-!
# Finding the file that a path means

A path inside a package, with or without an extension, is looked up in a row of directories with each of a row of
extensions, then as a directory with an index file. Four presets cover compiled code, sources, declarations and all
modules.

Main definitions: `SearchPlan`, `Discovery`, `SearchPlan.discover`, `SearchPlan.variations`, `SearchPlan.resolve?`.
-/

namespace PackageExports

/-- Where to look, and for which extensions, each in order of preference. -/
structure SearchPlan where
  extensions : List Text
  tryIndexFiles : Bool := true
  directories : List Text := ["lib", "dist", "build", "out"]
  /-- Whether the directory of a target is kept below the directories that are searched. -/
  keepsStructure : Bool := true

/-- How a file was found. -/
inductive DiscoveryKind where
  | exact
  | byExtension
  | byIndex
  | nowhere
deriving DecidableEq

/-- The outcome of a search: the file as seen from the package, the paths tried, and the extension found. -/
structure Discovery where
  kind : DiscoveryKind
  file : Option Text := none
  tried : List Text := []
  extension : Option Text := none

/-- How many of a row of paths were found, and how. -/
structure DiscoveryStats where
  total : Nat
  found : Nat
  kinds : Keyed Text Nat
  missing : List Text

/-- The share of the paths that were found in percent, with six digits after the decimal point. -/
def DiscoveryStats.successRate (s : DiscoveryStats) : Text :=
  sixPlacesOfRatio (100 * s.found) (max 1 s.total)

def DiscoveryKind.word : DiscoveryKind → Text
  | .exact => "exact"
  | .byExtension => "extension"
  | .byIndex => "index"
  | .nowhere => "none"

namespace SearchPlan

def javascript : SearchPlan where
  extensions := [".js", ".mjs", ".cjs", ".jsx"]

def typescript : SearchPlan where
  extensions := [".ts", ".tsx", ".js", ".jsx"]
  directories := ["src", "source", "lib", "dist"]

def declarations : SearchPlan where
  extensions := [".d.ts", ".d.mts", ".d.cts"]
  directories := ["types", "lib", "dist", "@types"]

def modules : SearchPlan where
  extensions := [".js", ".mjs", ".cjs", ".ts", ".tsx", ".jsx"]
  directories := ["lib", "dist", "src", "build", "out"]

def ofName (name : Text) : Except Failure SearchPlan :=
  if name = "javascript" then .ok javascript
  else if name = "typescript" then .ok typescript
  else if name = "declarations" then .ok declarations
  else if name = "module" then .ok modules
  else .error (.presetUnknown name)

/-- The directory of a target, and its name without the suffix. -/
def splitTarget (target : Text) : Text × Text :=
  let (directory, name) := Written.split target
  (directory, (Written.splitSuffix name).1)

/-- Where to look in `searched` for a target that lives in `directory`. -/
def searchPath (plan : SearchPlan) (searched directory : Text) : Text :=
  if !plan.keepsStructure || directory.isEmpty then searched
  else if directory = searched ∨ Text.startsWith directory (searched ++ "/") then directory
  else Written.join searched directory

def candidates (plan : SearchPlan) (directory name : Text) : List (Text × Text) :=
  plan.extensions.map fun extension => (Written.join directory (name ++ extension), extension)

def seenFrom (package path : Path) : Except Failure Text :=
  match path.relativeTo? package with
  | some relative => .ok relative.text
  | none => .error (.cause (.outside path package))

def foundFrom (package : Path) : Option Path → Except Failure (Option Text)
  | some path => (seenFrom package path).map some
  | none => .ok none

def indexIn? (plan : SearchPlan) (fs : FileSystem) (package directory : Path) :
    Except Failure (Option (Text × Text)) :=
  match Probe.indexFile? fs directory.text plan.extensions with
  -- the extension is what follows `index`
  | some path => (seenFrom package path).map fun seen => some (seen, path.name.drop 5)
  | none => .ok none

/-- Looks for a name in one directory after the other; `tried` are the paths tried before. -/
def search (plan : SearchPlan) (fs : FileSystem) (package : Path) (directory name : Text) (tried : List Text) :
    List Text → Except Failure Discovery
  | [] => .ok { kind := .nowhere, tried }
  | searched :: rest =>
    let path := plan.searchPath searched directory
    let candidates := plan.candidates path name
    match candidates.findIdx? fun (candidate, _) => fs.isFile (package / candidate).text with
    | some index =>
      let (candidate, extension) := candidates[index]?.getD ([], [])
      .ok {
        kind := .byExtension
        file := some candidate
        tried := tried ++ (candidates.take (index + 1)).map Prod.fst
        extension := some extension }
    | none =>
      let tried := tried ++ candidates.map Prod.fst
      if plan.tryIndexFiles then
        match plan.indexIn? fs package (package / Written.join path name) with
        | .ok (some (file, extension)) =>
          .ok { kind := .byIndex, file := some file, tried := tried ++ [file], extension := some extension }
        | .ok none => search plan fs package directory name tried rest
        | .error failure => .error failure
      else search plan fs package directory name tried rest

/-- Finds the file that a path means: the path itself if it has a suffix and leads to a file, else by search. -/
def discover (plan : SearchPlan) (fs : FileSystem) (package : Path) (target : Text) : Except Failure Discovery :=
  let bare := Relative.bare target
  let suffix := (Written.splitSuffix bare).2
  if !suffix.isEmpty && fs.isFile (package / bare).text then
    .ok { kind := .exact, file := some bare, tried := [bare], extension := some suffix }
  else
    let (directory, name) := splitTarget bare
    plan.search fs package directory name [] plan.directories

/-- All paths that a search may try, in order. -/
def variations (plan : SearchPlan) (target : Text) : List Text :=
  let (directory, name) := splitTarget (Relative.bare target)
  plan.directories.flatMap fun searched =>
    let path := plan.searchPath searched directory
    let indexFiles : List Text := plan.extensions.map fun extension =>
      Written.joinAll path [name, "index" ++ extension]
    (plan.candidates path name).map Prod.fst ++ if plan.tryIndexFiles then indexFiles else []

/-- The index file of a path taken as a directory below one of the directories that are searched. -/
def indexBelow? (plan : SearchPlan) (fs : FileSystem) (package : Path) (bare : Text) :
    List Text → Except Failure (Option Text)
  | [] => .ok none
  | searched :: rest =>
    match plan.indexIn? fs package (package / searched / bare) with
    | .ok (some (file, _)) => .ok (some file)
    | .ok none => indexBelow? plan fs package bare rest
    | .error failure => .error failure

/-- The file that a path means, the whole path being taken as a directory in the end. -/
def resolve? (plan : SearchPlan) (fs : FileSystem) (package : Path) (target : Text) :
    Except Failure (Option Text) := do
  let found ← plan.discover fs package target
  match found.file.filter (!·.isEmpty) with
  | some file => return some file
  | none => plan.indexBelow? fs package (Relative.bare target) plan.directories

def stats (plan : SearchPlan) (fs : FileSystem) (package : Path) (targets : List Text) :
    Except Failure DiscoveryStats :=
  targets.foldlM
    (fun stats target => do
      let found ← plan.discover fs package target
      if (found.file.filter (!·.isEmpty)).isSome then
        let word := found.kind.word
        return { stats with
          found := stats.found + 1
          kinds := stats.kinds.insert word ((stats.kinds.get? word).getD 0 + 1) }
      else return { stats with missing := stats.missing ++ [target] })
    ⟨targets.length, 0, [], []⟩

end SearchPlan

end PackageExports
