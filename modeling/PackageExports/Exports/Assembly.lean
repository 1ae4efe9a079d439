import PackageExports.Batch.Basic
import PackageExports.Exports.Baseline
import PackageExports.Exports.Entry
import PackageExports.Usage.Basic

/-!
# The exports map of a package

The exports that a package has, or else those that follow from its manifest, come first and stay as they are. Each
imported path without an export gets one at the end, in the order in which the paths were recorded.

Main definitions: `Exports.ofJson`, `Assembly.pending`, `Assembly.exports`, `Assembly.exportsInBatch`.
-/

namespace PackageExports

/-- The map that an `exports` member means: a value without subpaths is the export of the package itself. -/
def Exports.ofJson : Json → Exports
  | .object members =>
    if !members.isEmpty && !members.any fun (key, _) => Text.startsWith key "." then [(".", .object members)]
    else members
  | value => [(".", value)]

/-- A package for which exports are made. -/
structure Assembly where
  package : Path
  manifest : Manifest
  usage : UsageRecord
  settings : Settings := {}

namespace Assembly

/-- The exports that are there before any path is added. -/
def start (fs : FileSystem) (a : Assembly) : Except Failure Exports :=
  match a.manifest.exports with
  | some value => .ok (Exports.ofJson value)
  | none => Baseline.exports fs a.package a.manifest a.settings.sourceDirectories

def presentNotice (name path : Text) : Noted Unit :=
  if path = "." then pure () else Noted.note (.exportPresent path name)

/-- The paths, each once, that have no export yet. -/
def pendingFrom (name : Text) (exports : Exports) (found : List Text) : List Text → Noted (List Text)
  | [] => return found
  | path :: rest =>
    if path ∈ found then pendingFrom name exports found rest
    else if exports.hasKey path then do
      presentNotice name path
      pendingFrom name exports found rest
    else pendingFrom name exports (found ++ [path]) rest

/-- The recorded paths that have no export yet. -/
def pending (exports : Exports) (usage : UsageRecord) : Noted (List Text) :=
  pendingFrom usage.package exports [] usage.importPaths

def request (a : Assembly) (path : Text) : EntryRequest where
  path
  package := a.package
  pattern := BuildPattern.detect a.manifest.main a.manifest.module
  buildDirectories := a.settings.buildDirectories
  sourceDirectories := a.settings.sourceDirectories

def exportOf (fs : FileSystem) (a : Assembly) (path : Text) : Attempt Json :=
  Conditions.toExport <$> (a.request path).conditions fs Strategy.expansionFirst

def extend (fs : FileSystem) (a : Assembly) (exports : Exports) : List Text → Attempt Exports
  | [] => return exports
  | path :: rest => do
    let value ← exportOf fs a path
    extend fs a (Keyed.insert path value exports) rest

/-- All exports of the package; one path that fails ends the work. -/
def exports (fs : FileSystem) (a : Assembly) : Attempt Exports := do
  let start ← Attempt.ofExcept (a.start fs)
  extend fs a start (← ExceptT.lift (pending start a.usage))

/-- Adds the export of a path, or warns that it is left out. -/
def addResult (name : Text) (exports : Exports) (path : Text) (result : ItemResult Json) : Noted Exports :=
  match result.value, result.failure with
  | some value, _ => return Keyed.insert path value exports
  | none, some failure => do
    Noted.note (.exportSkipped path name failure)
    return exports
  | none, none => return exports

def addResults (name : Text) (exports : Exports) : List (Text × ItemResult Json) → Noted Exports
  | [] => return exports
  | (path, result) :: rest => do
    addResults name (← addResult name exports path result) rest

/-- All exports of the package; the paths are worked on in a batch, and those that fail are left out. -/
def exportsInBatch (fs : FileSystem) (a : Assembly) : Attempt Exports := do
  let start ← Attempt.ofExcept (a.start fs)
  let paths ← ExceptT.lift (pending start a.usage)
  let work : Batch.Work Text Json := { label := id, operation := fun path => Batch.ofAttempt (exportOf fs a path) }
  let results ← Batch.run a.settings.batch work paths
  ExceptT.lift (addResults a.usage.package start (paths.zip results))

end Assembly

end PackageExports
