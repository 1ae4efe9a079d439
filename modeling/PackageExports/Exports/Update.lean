import PackageExports.BuildLayout
import PackageExports.Exports.Assembly
import PackageExports.Json.Printer
import PackageExports.Usage.File

/-!
# Updating manifests

The exports of the packages of a repository are made from a usage file and written to their manifests. A manifest is
written only if its exports change, their order counting as well.

Main definitions: `Exports.writeTo`, `ExportsUpdate`, `ExportsUpdate.run`.
-/

namespace PackageExports

namespace Exports

/-- Whether members hold the same exports already. -/
def isIn (exports : Exports) (members : Json.Members) : Bool :=
  match members.value? "exports" with
  -- texts are compared and not values, so that `1` differs from `1.0` and the order counts
  | some value => (Json.object (ofJson value)).compact = (Json.object exports).compact
  | none => false

/-- The text of a manifest with the exports. -/
def manifestText (exports : Exports) (members : Json.Members) : Text :=
  (Json.object (Keyed.insert "exports" (.object exports) members)).pretty ++ "\n"

/-- Puts the exports into a manifest; the value says whether it was written. -/
def writeTo (exports : Exports) (manifest : Path) : Action (Except Cause Bool) := do
  match (← Action.files).readManifest manifest with
  | .error c => return .error c
  | .ok members =>
    if exports.isIn members then return .ok false
    else return (← Action.writeText manifest (exports.manifestText members)).map fun _ => true

end Exports

/-- What is updated: all packages below a directory or the one with a name. -/
structure ExportsUpdate where
  directory : Path
  usageFile : Path
  /-- Whether nothing is written. -/
  dryRun : Bool := false
  packageName : Option Text := none
  /-- Whether the directories of each package are detected. -/
  detectLayout : Bool := false
  settings : Settings := {}

/-- What became of a package. -/
structure PackageUpdate where
  name : Text
  exports : Exports
  written : Bool

namespace ExportsUpdate

/-- The name of the wanted package; an empty one is none. -/
def wanted (u : ExportsUpdate) : Option Text :=
  u.packageName.filter (!·.isEmpty)

def packages (u : ExportsUpdate) : Action (List Package) := do
  let all ← Action.ofNoted (Package.findAll (← Action.files) u.directory u.settings.packageIgnore)
  match u.wanted with
  | none => return all
  | some name =>
    match all.filter fun p => p.name = name with
    | [] => throw (.packageUnknown name)
    | chosen => return chosen

def settingsFor (u : ExportsUpdate) (p : Package) : Action Settings := do
  if u.detectLayout then
    let layout ← Action.ofAttempt (BuildLayout.detect (← Action.files) p.directory)
    return layout.recommend u.settings
  else return u.settings

def manifestOf (p : Package) : Action Manifest := do
  match (← Action.files).readManifest p.manifest with
  | .error c => throw (.manifestUnreadable p.manifest c)
  | .ok members =>
    Action.ofExcept ((Manifest.ofMembers members).mapError fun fields => .cause (.invalid fields))

/-- Writes the exports of a package unless nothing is to be written. -/
def write (u : ExportsUpdate) (p : Package) (exports : Exports) : Action Bool := do
  if u.dryRun then return false
  else
    match ← exports.writeTo p.manifest with
    | .ok written => return written
    | .error c => throw (.manifestUnwritable p.manifest c)

/-- Updates a package that has recorded imports. -/
def updateWith (u : ExportsUpdate) (p : Package) (record : UsageRecord) : Action PackageUpdate := do
  let manifest ← manifestOf p
  let settings ← u.settingsFor p
  let assembly : Assembly := { package := p.directory, manifest, usage := record, settings }
  let exports ← Action.ofAttempt (assembly.exportsInBatch (← Action.files))
  let written ← u.write p exports
  return { name := p.name, exports, written }

def update? (u : ExportsUpdate) (usage : Usage) (p : Package) : Action (Option PackageUpdate) := do
  match (usage.get? p.name).filter (!·.importPaths.isEmpty) with
  | some record => some <$> u.updateWith p record
  | none =>
    if u.wanted.isSome then Action.note (.usageAbsent p.name)
    return none

def updateAll (u : ExportsUpdate) (usage : Usage) : List Package → Action (List PackageUpdate)
  | [] => return []
  | p :: rest => do
    let first ← u.update? usage p
    let others ← updateAll u usage rest
    return first.toList ++ others

def run (u : ExportsUpdate) : Action (List PackageUpdate) := do
  match u.wanted with
  | some name => Action.note (.generatingFor name)
  | none => Action.note (.generatingBelow u.directory)
  let usage ← Action.ofAttempt (Usage.load (← Action.files) u.usageFile.text)
  Action.note (.usageLoaded usage.length)
  let updates ← u.updateAll usage (← u.packages)
  Action.note (.exportsProcessed updates.length)
  return updates

end ExportsUpdate

end PackageExports
