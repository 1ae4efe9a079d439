import PackageExports.Discovery
import PackageExports.FileSystem.Walk
import PackageExports.Path.Relative

/-!
# Remembered files

Which paths of a package are files, as known beforehand or found out when first asked. What is known once is not looked
up again.

Main definitions: `FileCache`, `FileCache.build`, `FileCache.isFile`.
-/

namespace PackageExports

/-- What is known about the paths of a package. -/
structure FileCache where
  package : Path
  known : Keyed Text Bool

namespace FileCache

def ofFiles (package : Path) (files : List Text) : FileCache :=
  ⟨package, Keyed.ofPairs (files.map fun file => (file, true))⟩

def filesBelow (fs : FileSystem) (package : Path) (directories : List Text) : Except Failure (List Text) := do
  let found ← directories.mapM fun directory => do
    let top := package / directory
    (fs.filesBelow top.text fun _ => true).mapM fun names =>
      SearchPlan.seenFrom package (top.join ⟨.relative, names⟩)
  return found.flatten

def build (fs : FileSystem) (package : Path) (directories : List Text := ["lib", "dist", "src", "build"]) :
    Except Failure FileCache := do
  return ofFiles package (← filesBelow fs package directories)

def length (c : FileCache) : Nat :=
  (c.known.filter (·.2)).length

/-- Whether a path, with or without `./`, is a file, and the cache that knows it. -/
def isFile (fs : FileSystem) (c : FileCache) (path : Text) : Bool × FileCache :=
  let bare := Relative.bare path
  match c.known.get? bare with
  | some present => (present, c)
  | none =>
    let present := fs.isFile (c.package / bare).text
    (present, { c with known := c.known.insert bare present })

end FileCache

end PackageExports
