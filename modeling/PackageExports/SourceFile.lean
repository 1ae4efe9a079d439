import PackageExports.Discovery
import PackageExports.ModuleKind

/-!
# From compiled files to sources

The source of a compiled file is looked for where the first build directory in its path is replaced by the source
directory that goes with it, and then in each source directory under the path without a leading build directory. A
second kind of inference goes by mappings from source directories to output directories, and by the extensions that
compile to the extension of the output.

Main definitions: `SourceFile.find?`, `SourceMapping`, `SourceInference`, `SourceInference.infer`.
-/

namespace PackageExports

namespace SourceFile

/-- The extensions of sources in order of preference. -/
def extensions : List Text :=
  [".ts", ".tsx", ".jsx", ".js"]

/-- Segments of output paths with the segments of source paths that go with them. -/
def segmentPairs : List (Text × Text) :=
  [("/lib/", "/src/"), ("/dist/", "/src/"), ("/build/", "/source/"), ("/out/", "/src/")]

/-- The source at a path without extension, or else an index file there, with `./` in front. -/
def resolve? (fs : FileSystem) (package : Path) (base : Text) : Except Failure (Option Text) :=
  (SearchPlan.foundFrom package (Probe.fileBeforeIndex? fs (package / base).text extensions)).map fun file =>
    file.map Relative.dotted

def firstSource? (fs : FileSystem) (package : Path) : List Text → Except Failure (Option Text)
  | [] => .ok none
  | base :: rest => do
    match ← resolve? fs package base with
    | none => firstSource? fs package rest
    | some source => return some source

/-- The path without the first of the build directories that it starts with. -/
def dropBuildDirectory (buildDirectories : List Text) (path : Text) : Text :=
  (buildDirectories.findSome? fun directory => Text.dropStart? (directory ++ "/") path).getD path

/-- The paths at which the source of a compiled file may be, without extensions, in order. -/
def candidates (target : Text) (sourceDirectories buildDirectories : List Text) : List Text :=
  let stem := Relative.dropCompiled (Relative.dotted target)
  let replaced := segmentPairs.filterMap fun (build, source) =>
    (Text.replaceFirst? build source stem).map Relative.bare
  let relative := dropBuildDirectory buildDirectories (Relative.bare stem)
  replaced ++ if relative.isEmpty then [] else sourceDirectories.map fun directory => directory ++ "/" ++ relative

/-- The source from which a compiled file was built, with `./` in front. -/
def find? (fs : FileSystem) (package : Path) (target : Text) (sourceDirectories buildDirectories : List Text) :
    Except Failure (Option Text) :=
  firstSource? fs package (candidates target sourceDirectories buildDirectories)

end SourceFile

/-- A source directory and the output directory into which it is compiled. -/
structure SourceMapping where
  source : Text
  output : Text
  keepsStructure : Bool := true
deriving DecidableEq

namespace SourceMapping

/-- The conventional mappings in order of preference. -/
def conventional : List SourceMapping :=
  [⟨"src", "lib", true⟩, ⟨"src", "dist", true⟩, ⟨"source", "lib", true⟩, ⟨"source", "dist", true⟩,
    ⟨"src", "build", true⟩, ⟨"src", "out", true⟩]

/-- The extensions of the sources that compile to an extension; one that is not listed stands for itself. -/
def family (extension : Text) : List Text :=
  if extension = ".js" then [".ts", ".tsx", ".jsx", ".js"]
  else if extension = ".mjs" then [".ts", ".tsx", ".mts", ".mjs"]
  else if extension = ".cjs" then [".ts", ".tsx", ".cts", ".cjs"]
  else if extension = ".d.ts" then [".ts", ".tsx"]
  else [extension]

/-- The paths at which the source of an output below the mapping's output directory may be, in order. -/
def candidates (mapping : SourceMapping) (relative : Text) : List Text :=
  let (base, extension) := Relative.splitExtension relative
  (family extension).flatMap fun extension =>
    let direct := mapping.source ++ "/" ++ base ++ extension
    let index := mapping.source ++ "/" ++ base ++ "/index" ++ extension
    if base = "index" ∨ Text.endsWith base "/index" then [direct] else [direct, index]

/-- The source of an output path by this mapping, with `./` in front. -/
def sourceOf? (mapping : SourceMapping) (fs : FileSystem) (package : Path) (output : Text) : Option Text :=
  match Text.dropStart? (mapping.output ++ "/") output with
  | some relative =>
    ((mapping.candidates relative).find? fun path => fs.isFile (package / path).text).map Relative.dotted
  | none => none

end SourceMapping

/-- Where an output comes from. -/
structure SourceInference where
  targetExists : Bool
  source : Option Text := none
  mapping : Option SourceMapping := none
  suggestedOutput : Option Text := none
deriving DecidableEq

namespace SourceInference

/-- Tells whether an output exists, and if not by which mapping it has a source; `custom` mappings come first. -/
def infer (fs : FileSystem) (package : Path) (target : Text) (custom : List SourceMapping) :
    Except AccessError SourceInference := do
  let bare := Relative.bare target
  if ← fs.check (package / bare).text none then return { targetExists := true }
  let found := (custom ++ SourceMapping.conventional).findSome? fun mapping =>
    (mapping.sourceOf? fs package bare).map fun source => (source, mapping)
  match found with
  | some (source, mapping) =>
    return {
      targetExists := false
      source := some source
      mapping := some mapping
      suggestedOutput := some (Relative.dotted bare) }
  | none => return { targetExists := false }

end SourceInference

end PackageExports
