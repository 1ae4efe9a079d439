import PackageExports.FileSystem.Resolve

/-!
# Building file systems

Entries are placed at paths, the directories above them being made as needed.

Main definitions: `FileSystem.makeDirectories`, `FileSystem.make`.
-/

namespace PackageExports.FileSystem

/-- The location of a directory, and the file system in which it and the directories above it were made. Names below
a file are taken as they are written. -/
def makeFrom (fs : FileSystem) (here : Location) : List Text → FileSystem × Location
  | [] => (fs, here)
  | name :: rest =>
    if name = [] ∨ name = "." then makeFrom fs here rest
    else if name = ".." then makeFrom fs here.dropLast rest
    else
      match fs.entryAt? (here ++ [name]) with
      | none => makeFrom (fs.put (here ++ [name]) .directory) (here ++ [name]) rest
      | some (.link _) =>
        match fs.follow linkLimit here [name] with
        | .ok (.present location) => makeFrom fs location rest
        | _ => makeFrom fs (here ++ [name]) rest
      | some _ => makeFrom fs (here ++ [name]) rest

def makeDirectories (fs : FileSystem) (p : Path) : FileSystem × Location :=
  makeFrom fs (if p.anchor = .relative then fs.workingDirectory else []) p.segments

/-- The file system with an entry made at a path and with the directories above it. -/
def make (fs : FileSystem) (p : Path) (entry : Entry) : FileSystem :=
  let (fs, parent) := fs.makeDirectories p.parent
  match fs.follow linkLimit parent [p.name] with
  | .ok (.present location) => fs.put location entry
  | .ok (.vacant location) => fs.put location entry
  | .error _ => fs.put (parent ++ [p.name]) entry

end PackageExports.FileSystem
