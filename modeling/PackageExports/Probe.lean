import PackageExports.FileSystem.Resolve
import PackageExports.Path.Relative

/-!
# Looking for files

Candidates are tried in the order of their extensions and the first file wins. A path that cannot be followed leads to
nothing.

Main definitions: `Probe.withExtensions?`, `Probe.indexFile?`, `Probe.fileOrIndex?`, `Probe.isPackageFile`.
-/

namespace PackageExports.Probe

/-- Whether a path inside a package, with or without `./`, leads to a file. -/
def isPackageFile (fs : FileSystem) (package : Path) (file : Text) : Bool :=
  let bare := Relative.bare file
  !bare.isEmpty && fs.isFile (package / bare).text

/-- The first of several paths that leads to a file. -/
def firstFile? (fs : FileSystem) (candidates : List Path) : Option Path :=
  candidates.find? fun p => fs.isFile p.text

def withExtension (base extension : Text) : Path :=
  .ofText (base ++ extension)

def indexWith (base extension : Text) : Path :=
  Path.ofText base / ("index" ++ extension)

/-- The first file whose path is `base` with one of the extensions. -/
def withExtensions? (fs : FileSystem) (base : Text) (extensions : List Text) : Option Path :=
  firstFile? fs (extensions.map (withExtension base))

/-- The files in a directory whose name is `name` with one of the extensions. -/
def allWithExtensions (fs : FileSystem) (directory : Path) (name : Text) (extensions : List Text) : List Path :=
  (extensions.map fun extension => directory / (name ++ extension)).filter fun p => fs.isFile p.text

/-- The first index file with one of the extensions in the directory that `base` leads to. -/
def indexFile? (fs : FileSystem) (base : Text) (extensions : List Text) : Option Path :=
  if fs.isDirectory base then firstFile? fs (extensions.map (indexWith base)) else none

/-- For each extension in turn the file `base` with it, then the index file with it. -/
def fileOrIndex? (fs : FileSystem) (base : Text) (extensions : List Text) : Option Path :=
  firstFile? fs (extensions.flatMap fun extension => [withExtension base extension, indexWith base extension])

/-- All files `base` with an extension before any index file. -/
def fileBeforeIndex? (fs : FileSystem) (base : Text) (extensions : List Text) : Option Path :=
  match withExtensions? fs base extensions with
  | some path => some path
  | none => indexFile? fs base extensions

end PackageExports.Probe
