import PackageExports.Json.Printer
import PackageExports.Json.Reader
import PackageExports.Settings.Check
import PackageExports.Usage.Basic
import PackageExports.World

/-!
# Usage files

Usage is kept in a JSON file, as an object with a record for each package. A record that does not fit is passed over
with a warning; a file that is not such an object cannot be used at all.

Main definitions: `UsageRecord.check`, `Usage.ofJson`, `Usage.load`, `Usage.loadExisting`, `Usage.save`.
-/

namespace PackageExports

namespace UsageRecord

def ofMembers (members : Json.Members) : Checked UsageRecord := do
  let package ← match Checked.member? members ["package"] with
    | some (name, value) => Checked.text name value
    | none => Checked.need "package" [] none
  let versionRequirement ← match Checked.member? members ["versionRequirement", "version_requirement"] with
    | none | some (_, .null) => pure none
    | some (name, value) => some <$> Checked.text name value
  let importPaths ← match Checked.member? members ["importPaths", "import_paths"] with
    | some (name, value) => Checked.texts name value
    | none => pure []
  return { package, versionRequirement, importPaths := Text.dedup importPaths }

def ofJson : Json → Checked UsageRecord
  | .object members => ofMembers members
  | _ => ⟨⟨[], none, []⟩, [[]]⟩

def check (value : Json) : Except (List Text) UsageRecord :=
  (ofJson value).toExcept

end UsageRecord

namespace Usage

/-- The record under a name; a record that does not say its package is of the package of that name. -/
def recordUnder (name : Text) : Json → Checked UsageRecord
  | .object members =>
    UsageRecord.ofMembers (if Keyed.hasKey members "package" then members else ("package", .string name) :: members)
  | value => UsageRecord.ofJson value

/-- The records that members give; those that do not fit are passed over. -/
def ofMembers : Json.Members → Noted Usage
  | [] => pure []
  | (name, value) :: rest => do
    let record := recordUnder name value
    if record.faults.isEmpty then return (name, record.value) :: (← ofMembers rest)
    else
      Noted.note (.usageRecordIgnored name record.faults.length)
      ofMembers rest

def ofJson : Json → Attempt Usage
  | .object members => ExceptT.lift (ofMembers members)
  | _ => throw .usageNotObject

def readValue (fs : FileSystem) (path : Text) : Except Failure Json :=
  match fs.readText path with
  | .error (.access .missing) => .error (.usageMissing path)
  | .error c@(.access .nullInPath) | .error c@(.access .unwritablePath) | .error c@.notUtf8 =>
    .error (.usageMalformed path c)
  | .error c => .error (.usageUnreadable path c)
  | .ok t =>
    match Json.parse? t with
    | some value => .ok value
    | none => .error (.usageMalformed path .notJson)

def load (fs : FileSystem) (path : Text) : Attempt Usage := do
  ofJson (← Attempt.ofExcept (readValue fs path))

/-- The usage in a file, or none if there is no such file or it cannot be used. -/
def loadExisting (fs : FileSystem) (path : Path) : Attempt Usage := do
  if ← Attempt.ofAccess (fs.check path.text none) then
    match (load fs path.text).run with
    | ⟨.ok usage, notices⟩ => ExceptT.lift ⟨usage, notices ++ [.usagePresent usage.length]⟩
    -- the warnings about records stay when the usage is given up
    | ⟨.error failure, notices⟩ => ExceptT.lift ⟨[], notices ++ [.usageDiscarded failure]⟩
  else return []

def save (path : Path) (usage : Usage) : Action Unit := do
  match ← Action.writeText path usage.toJson.pretty with
  | .ok _ => return
  | .error c => throw (.cause c)

end Usage

end PackageExports
