import PackageExports.Keyed
import PackageExports.Path.Basic

/-!
# File systems

A file system is a finite map from locations to entries. A location is the row of names that leads to an entry from
the top, without links and without `..`; the top itself is always a directory. Names are compared code point by code
point.

Main definitions: `Entry`, `FileSystem`, `FileSystem.entryAt?`, `FileSystem.put`, `FileSystem.remove`.
-/

namespace PackageExports

/-- What may stand at a location. -/
inductive Entry where
  | file (content : List UInt8)
  | link (target : Text)
  | directory
deriving DecidableEq

/-- The names that lead from the top to an entry. -/
abbrev Location := List Text

/-- The entries of a file system, and the directory from which relative paths start. -/
structure FileSystem where
  entries : Keyed Location Entry
  workingDirectory : Location
  nodup : entries.keys.Nodup

namespace FileSystem

def empty : FileSystem :=
  ⟨[], [], List.nodup_nil⟩

def entryAt? (fs : FileSystem) (location : Location) : Option Entry :=
  if location = [] then some .directory else fs.entries.get? location

def put (fs : FileSystem) (location : Location) (entry : Entry) : FileSystem :=
  { fs with entries := fs.entries.insert location entry, nodup := Keyed.nodup_keys_insert location entry fs.nodup }

/-- The file system without a location and all that is below it. -/
def remove (fs : FileSystem) (location : Location) : FileSystem where
  entries := fs.entries.filter fun (l, _) => !location.isPrefixOf l
  workingDirectory := fs.workingDirectory
  nodup := List.Nodup.sublist (List.Sublist.map _ List.filter_sublist) fs.nodup

@[simp] theorem entryAt?_put_self (fs : FileSystem) {location : Location} (entry : Entry) (h : location ≠ []) :
    (fs.put location entry).entryAt? location = some entry := by
  simp [entryAt?, put, h]

theorem entryAt?_put_of_ne (fs : FileSystem) {location other : Location} (entry : Entry) (h : location ≠ other) :
    (fs.put location entry).entryAt? other = fs.entryAt? other := by
  by_cases ho : other = []
  · simp [entryAt?, ho]
  · simp [entryAt?, put, ho, Keyed.get?_insert_of_ne _ _ h]

end FileSystem

end PackageExports
