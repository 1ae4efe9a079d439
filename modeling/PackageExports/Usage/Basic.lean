import PackageExports.Json.Value
import PackageExports.Text.Basic

/-!
# Usage of packages

Which paths of a package are imported somewhere, and the version range it is needed in. Paths are kept without
repetition in the order in which they were seen, and are written in sorted order.

Main definitions: `UsageRecord`, `UsageRecord.addPath`, `Usage`, `Usage.merge`.
-/

namespace PackageExports

/-- How one package is used. -/
structure UsageRecord where
  package : Text
  versionRequirement : Option Text := none
  importPaths : List Text := []
deriving DecidableEq

/-- Usage by package name. -/
abbrev Usage := Keyed Text UsageRecord

/-- An import of a path of a package; the package itself is the path `.`, and others start with `./`. -/
structure PackageImport where
  package : Text
  path : Text
deriving DecidableEq

namespace UsageRecord

def addPath (r : UsageRecord) (path : Text) : UsageRecord :=
  if path ∈ r.importPaths then r else { r with importPaths := r.importPaths ++ [path] }

def hasVersion (r : UsageRecord) : Bool :=
  (r.versionRequirement.filter (!·.isEmpty)).isSome

/-- The written form of a record. An empty version range is left out. -/
def toJson (r : UsageRecord) : Json :=
  let version : Option (Text × Json) :=
    (r.versionRequirement.filter (!·.isEmpty)).map fun range => ("versionRequirement", .string range)
  let paths : Text × Json := ("importPaths", .array ((Text.sort r.importPaths).map .string))
  .object (("package", .string r.package) :: (version.toList ++ [paths]))

end UsageRecord

namespace Usage

def toJson (usage : Usage) : Json :=
  .object (usage.map fun (name, record) => (name, record.toJson))

/-- The record of a package after one more import, with the version range of the dependencies if it has none yet. -/
def recordWith (usage : Usage) (dependencies : Keyed Text Text) (i : PackageImport) : UsageRecord :=
  let record := ((usage.get? i.package).getD { package := i.package }).addPath i.path
  if record.hasVersion then record else { record with versionRequirement := dependencies.get? i.package }

/-- Adds imports to the usage of packages. -/
def merge (usage : Usage) (dependencies : Keyed Text Text) (imports : List PackageImport) : Usage :=
  imports.foldl (fun usage i => usage.insert i.package (usage.recordWith dependencies i)) usage

end Usage

end PackageExports
