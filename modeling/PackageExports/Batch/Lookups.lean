import PackageExports.Batch.Basic
import PackageExports.Declaration

/-!
# Lookups in batches

Files, discoveries, declarations and mappings for many paths at once.

Main definitions: `Batch.checkFiles`, `Batch.discover`, `Batch.findDeclarations`, `Batch.checkMappings`.
-/

namespace PackageExports

/-- Whether the two files of a mapping exist. -/
structure MappingCheck where
  sourceExists : Bool
  outputExists : Bool
deriving DecidableEq

namespace Batch

def checkFiles (settings : BatchSettings) (fs : FileSystem) (paths : List Text) :
    Attempt (List (ItemResult Bool)) :=
  run settings { label := id, operation := fun path => return .returns (fs.isFile path) } paths

/-- What each of some paths means; a path that means nothing is no success. -/
def discover (settings : BatchSettings) (fs : FileSystem) (package : Path) (plan : SearchPlan)
    (targets : List Text) : Attempt (List (ItemResult Discovery)) :=
  run settings
    { label := id
      operation := fun target => ofAttempt (Attempt.ofExcept (plan.discover fs package target))
      accept := fun found => found.file.isSome }
    targets

/-- The declaration of each of some files; a file without one is no success. -/
def findDeclarations (settings : BatchSettings) (fs : FileSystem) (package : Path) (buildDirectories : List Text)
    (files : List Text) : Attempt (List (ItemResult Declaration)) :=
  run settings
    { label := id
      operation := fun file => ofAttempt (Attempt.ofExcept (Declaration.find fs package file buildDirectories))
      accept := Declaration.found }
    files

def checkMappings (settings : BatchSettings) (fs : FileSystem) (package : Path) (mappings : List (Text × Text)) :
    Attempt (List (ItemResult MappingCheck)) :=
  let isFile (file : Text) : Bool := fs.isFile (package / Relative.bare file).text
  run settings
    { label := fun (source, output) => source ++ " -> " ++ output
      operation := fun (source, output) => return .returns ⟨isFile source, isFile output⟩ }
    mappings

end Batch

end PackageExports
