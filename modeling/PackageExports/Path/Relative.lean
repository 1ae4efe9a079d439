import PackageExports.Path.Written

/-!
# Paths inside a package

A package writes the paths of its own files with `./` in front; `Relative.dotted` and `Relative.bare` go back and
forth. Declaration files have extensions of two parts, which are cut off in one piece.

Main definitions: `Relative.dotted`, `Relative.bare`, `Relative.splitExtension`, `Relative.dropCompiled`.
-/

namespace PackageExports.Relative

/-- The path with `./` in front. -/
def dotted (path : Text) : Text :=
  if Text.startsWith path "./" then path else "./" ++ path

/-- The path without one `./` in front. -/
def bare (path : Text) : Text :=
  (Text.dropStart? "./" path).getD path

def declarationExtensions : List Text :=
  [".d.ts", ".d.mts", ".d.cts"]

/-- The extensions of compiled files, the longer ones first. -/
def compiledExtensions : List Text :=
  [".d.mts", ".d.cts", ".d.ts", ".mjs", ".cjs", ".js"]

/-- The first of `extensions` that the text ends in, with the part before it, which must not be empty. -/
def cutExtension? (extensions : List Text) (t : Text) : Option (Text × Text) :=
  extensions.findSome? fun extension =>
    match Text.dropEnd? extension t with
    | some stem => if stem.isEmpty then none else some (stem, extension)
    | none => none

/-- A path without the extension of its file name, and the extension; empty for a name whose only point comes
first. -/
def splitExtension (path : Text) : Text × Text :=
  let (head, name) := Written.cutAtLastSlash path
  match cutExtension? declarationExtensions name with
  | some (stem, extension) => (head ++ stem, extension)
  | none =>
    match Text.splitAtLast? '.' name with
    | some (stem, rest) => if stem.isEmpty then (path, []) else (head ++ stem, '.' :: rest)
    | none => (path, [])

def dropCompiled (path : Text) : Text :=
  match cutExtension? compiledExtensions path with
  | some (stem, _) => stem
  | none => path

end PackageExports.Relative
