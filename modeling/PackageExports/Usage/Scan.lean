import PackageExports.Batch.Basic
import PackageExports.Manifest.Repository
import PackageExports.Script.Specifier
import PackageExports.Usage.File

/-!
# Collecting usage

The scripts of a repository are searched for imports of known packages, and what is found is added to a usage file.
Nothing that was recorded is lost: paths stay, and so does a version range.

Main definitions: `Usage.importsIn`, `Usage.sourcesBelow`, `UsageScan`, `UsageScan.run`.
-/

namespace PackageExports

namespace Usage

/-- The imports in a source of packages with given names, or of all packages if there are no names. -/
def importsOf (path : Path) (names : List Text) (source : Text) : List PackageImport :=
  ((Script.specifiers path source).filterMap PackageImport.ofSpecifier?).filter fun i =>
    names.isEmpty || names.contains i.package

/-- The imports in a file; a file that cannot be read has none. -/
def importsIn (fs : FileSystem) (path : Path) (names : List Text) : Attempt (List PackageImport) := do
  match fs.readTextReplacing path.text with
  | .ok source => return importsOf path names source
  | .error .nullInPath => throw (.cause (.access .nullInPath))
  | .error .unwritablePath => throw (.cause (.access .unwritablePath))
  | .error e =>
    Attempt.note (.sourceUnreadable path (.access e))
    return []

/-- The endings of declaration files, which are no sources. -/
def declarationEndings : List Text :=
  [".d.ts", ".d.mts", ".d.cts"]

/-- The files below a directory that have one of some endings, in the order of a walk that leaves out directories with
ignored names. -/
def sourcesBelow (fs : FileSystem) (root : Path) (endings ignored : List Text) : List Path :=
  let names := fs.filesBelow root.text fun name => !ignored.contains name
  (names.filter fun names =>
    let name := names.getLast?.getD []
    !Text.endsWithAny name declarationEndings && Text.endsWithAny name endings).map fun names =>
      root.join ⟨.relative, names⟩

end Usage

/-- What is scanned: the scripts below a directory, for the packages of a repository. -/
structure UsageScan where
  directory : Path
  usageFile : Path
  /-- Where the packages are; the scanned directory if it is not said. -/
  repository : Option Path := none
  privateOnly : Bool := false
  settings : Settings := {}

/-- What came of a scan. -/
structure ScanReport where
  packages : Nat
  files : Nat
  imports : Nat
  failedFiles : Nat
deriving DecidableEq

namespace UsageScan

def packageNames (s : UsageScan) : Action (List Text) := do
  let repository := s.repository.getD s.directory
  let names ← Action.ofNoted
    (Package.namesBelow (← Action.files) repository s.privateOnly s.settings.packageIgnore)
  Action.note (.packagesFound names.length repository)
  return names

/-- The imports in each of some files, which are searched in a batch. -/
def search (s : UsageScan) (names : List Text) (sources : List Path) :
    Action (List (ItemResult (List PackageImport))) := do
  let fs ← Action.files
  let work : Batch.Work Path (List PackageImport) :=
    { label := Path.text, operation := fun path => Batch.ofAttempt (Usage.importsIn fs path names) }
  Action.ofAttempt (Batch.run s.settings.batch work sources)

def run (s : UsageScan) : Action ScanReport := do
  Action.note (.scanning s.directory)
  let names ← s.packageNames
  let fs ← Action.files
  let usage ← Action.ofAttempt (Usage.loadExisting fs s.usageFile)
  let sources := Usage.sourcesBelow fs s.directory s.settings.scanExtensions s.settings.scanIgnore
  Action.note (.sourcesFound sources.length)
  let dependencies ← Action.ofAttempt (fs.dependencies s.directory)
  let results ← s.search names sources
  let found := results.filterMap (·.value)
  let merged := found.foldl (fun usage imports => usage.merge dependencies imports) usage
  Usage.save s.usageFile merged
  Action.note (.usageSaved merged.length)
  return {
    packages := merged.length
    files := sources.length
    imports := found.flatten.length
    failedFiles := (Batch.failures results).length }

end UsageScan

end PackageExports
