import PackageExports.Decimal.Binary64
import PackageExports.Text.Basic

/-!
# Settings

Where compiled files and sources are, which directories are left out, and how work is done in batches. The defaults
describe the usual layout of a JavaScript package.

Main definitions: `Slots`, `BatchSettings`, `Settings`.
-/

namespace PackageExports

/-- A number of items that may be under way at a time: at least one. -/
abbrev Slots :=
  { n : Nat // 0 < n }

/-- The number of items that are under way at a time unless something else is said. -/
def Slots.usual : Slots :=
  ⟨10, by decide⟩

/-- How batches are run. -/
structure BatchSettings where
  /-- How many items may be under way at a time. -/
  concurrency : Slots := Slots.usual
  continueOnError : Bool := true
  /-- After how many seconds an item has failed. -/
  operationTimeout : Binary64 := .ofInt 5
  collectStats : Bool := true
deriving DecidableEq

/-- All settings of the commands. -/
structure Settings where
  buildDirectories : List Text := ["lib", "dist", "build", "out"]
  sourceDirectories : List Text := ["src", "source"]
  /-- The names of directories in which no packages are looked for. -/
  packageIgnore : List Text := ["node_modules", "dist", "build"]
  /-- The names of directories in which no imports are looked for. -/
  scanIgnore : List Text := ["node_modules", "dist", "build", "lib"]
  scanExtensions : List Text := [".ts", ".tsx", ".js", ".jsx", ".mts", ".cts", ".cjs", ".mjs"]
  batch : BatchSettings := {}
deriving DecidableEq

end PackageExports
