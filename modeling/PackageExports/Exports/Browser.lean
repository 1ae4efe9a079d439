import PackageExports.Manifest.Basic
import PackageExports.Path.Relative

/-!
# Replacements for browsers

The `browser` member of a manifest replaces the whole package or single files. A replacement for the file that is the
entry of the package, `main` or else `module`, is a replacement for the whole package.

Main definitions: `BrowserTargets`, `BrowserTargets.ofField`.
-/

namespace PackageExports

/-- What browsers take in place of the package and of single files; a file without a replacement is blocked. -/
structure BrowserTargets where
  root : Option Text := none
  files : Keyed Text (Option Text) := []
deriving DecidableEq

namespace BrowserTargets

def dottedTable (targets : Keyed Text (Option Text)) : List (Text × Option Text) :=
  targets.map fun (path, target) => (Relative.dotted path, target.map Relative.dotted)

/-- The replacements that a table gives for the file `main`; the last one counts. -/
def rootOf (main : Option Text) (entries : List (Text × Option Text)) : Option Text :=
  (entries.filterMap fun (path, target) => if some path = main then target else none).getLast?

/-- One more entry of a table. The entry of `main` is left out; so is that of `module` as long as there is no
replacement for the package, and it then gives one. -/
def step (main module : Option Text) (found : BrowserTargets) (entry : Text × Option Text) : BrowserTargets :=
  let (path, target) := entry
  if some path = main then found
  else if some path = module ∧ found.root = none then { found with root := target }
  else { found with files := Keyed.insert path target found.files }

def ofTable (targets : Keyed Text (Option Text)) (main module : Option Text) : BrowserTargets :=
  let entries := dottedTable targets
  entries.foldl (step main module) { root := rootOf main entries }

/-- A path of a manifest with `./` in front; an empty one is none. -/
def entryPath (path : Option Text) : Option Text :=
  (path.filter (!·.isEmpty)).map Relative.dotted

def ofField (field : Option BrowserField) (main module : Option Text) : BrowserTargets :=
  match field with
  | none => {}
  | some (.whole target) => { root := some (Relative.dotted target) }
  | some (.table targets) => ofTable targets (entryPath main) (entryPath module)

end BrowserTargets

end PackageExports
