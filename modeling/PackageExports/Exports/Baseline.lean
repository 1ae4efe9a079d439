import PackageExports.Exports.Browser
import PackageExports.Exports.Conditions
import PackageExports.SourceFile

/-!
# Exports without evidence

The exports that follow from the entries of a manifest alone: one for the package itself and one for each file that
browsers replace.

Main definitions: `Exports`, `Baseline.exports`.
-/

namespace PackageExports

/-- An exports map: a value for each subpath. -/
abbrev Exports :=
  Keyed Text Json

namespace Baseline

def namedSource? (fs : FileSystem) (package : Path) (m : Manifest) : Option Text :=
  match m.source.filter (!·.isEmpty) with
  | some source => if Probe.isPackageFile fs package source then some (Relative.dotted source) else none
  | none => none

/-- The first source found for one of several compiled files. -/
def sourceOfFirst (fs : FileSystem) (package : Path) (sourceDirectories : List Text) :
    List Text → Except Failure (Option Text)
  | [] => .ok none
  | entry :: rest => do
    match ← SourceFile.find? fs package entry sourceDirectories ({} : Settings).buildDirectories with
    | some source => return some source
    | none => sourceOfFirst fs package sourceDirectories rest

/-- The target under `require` of the file `main`: the file, unless it holds an ES module. -/
def requiredOf (fs : FileSystem) (package : Path) (main : Text) : Except Failure (Option Text) :=
  match ModuleKind.detect fs package main with
  | .ok .esm => .ok none
  | .ok _ => .ok (some main)
  | .error e => .error (.cause (.access e))

def root (fs : FileSystem) (package : Path) (m : Manifest) (browser : Option Text)
    (sourceDirectories : List Text) : Except Failure Conditions := do
  let main := BrowserTargets.entryPath m.main
  let module := BrowserTargets.entryPath m.module
  let required ← match main with
    | some file => requiredOf fs package file
    | none => .ok none
  let source ← match namedSource? fs package m with
    | some source => .ok (some source)
    | none => sourceOfFirst fs package sourceDirectories (main.toList ++ module.toList)
  return {
    source
    types := BrowserTargets.entryPath m.typesField
    imported := module
    required
    browser
    otherwise := main }

/-- The targets of a file that browsers replace. -/
def replaced (fs : FileSystem) (package : Path) (sourceDirectories : List Text) (file : Text)
    (browser : Option Text) : Except Failure Conditions := do
  return {
    source := ← SourceFile.find? fs package file sourceDirectories ({} : Settings).buildDirectories
    browser
    otherwise := some file }

/-- The export of a package that names no entry. -/
def usualRoot : Json :=
  .string "./lib/index.js"

/-- The exports that follow from a manifest. -/
def exports (fs : FileSystem) (package : Path) (m : Manifest) (sourceDirectories : List Text) :
    Except Failure Exports := do
  let browser := BrowserTargets.ofField m.browser m.main m.module
  let rootConditions ← root fs package m browser.root sourceDirectories
  let start : Exports := [(".", if rootConditions.isEmpty then usualRoot else rootConditions.toExport)]
  browser.files.foldlM
    (fun found (file, target) => do
      let conditions ← replaced fs package sourceDirectories file target
      return Keyed.insert file conditions.toExport found)
    start

end Baseline

end PackageExports
