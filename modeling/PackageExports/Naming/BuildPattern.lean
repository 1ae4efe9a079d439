import PackageExports.Naming.Flavor
import PackageExports.Path.Relative

/-!
# Dual builds

A package that has a CommonJS and an ES module build tells them apart by a directory, by the extension, or by a word
at the start of file names. Its two entry points show which; the first of the three ways that fits is taken.

Main definitions: `BuildSide`, `BuildPattern`, `BuildPattern.detect`.
-/

namespace PackageExports

/-- Where two builds differ. -/
inductive PatternKind where
  | byDirectory
  | byExtension
  | byNameStart
deriving DecidableEq

/-- One of two builds: the path that they share, and the marker of this one as it is written. A marker at the start of
a file name has a separator after it. -/
structure BuildSide where
  base : Text
  marker : Text
  separator : Text := []
deriving DecidableEq

/-- How a package tells its two builds apart, if it has two. -/
inductive BuildPattern where
  | single
  | dual (kind : PatternKind) (cjs esm : BuildSide)
deriving DecidableEq

namespace BuildPattern

/-- The pattern in which the side that is CommonJS comes first. -/
def pair? (kind : PatternKind) (main module : BuildSide) (mainFlavor moduleFlavor : Flavor) : Option BuildPattern :=
  (Flavor.cjsSide? mainFlavor moduleFlavor).map fun
    | .first => .dual kind main module
    | .second => .dual kind module main

def stem (name : Text) : Text :=
  match Text.splitAtLast? '.' name with
  | some (before, _) => before
  | none => name

/-- The places at which two rows differ, with what stands there. -/
def differences : (index : Nat) → List Text → List Text → List (Nat × Text × Text)
  | index, a :: as, b :: bs =>
    if a = b then differences (index + 1) as bs else (index, a, b) :: differences (index + 1) as bs
  | _, _, _ => []

/-- Two paths that differ in one directory, the file names having the same stem. -/
def byDirectory? (main module : Text) : Option BuildPattern :=
  let mainParts := Text.splitOn '/' main
  let moduleParts := Text.splitOn '/' module
  let stemOf (parts : List Text) : Text := stem (parts.getLast?.getD [])
  if mainParts.length ≠ moduleParts.length ∨ stemOf mainParts ≠ stemOf moduleParts then none
  else
    match differences 0 mainParts.dropLast moduleParts.dropLast with
    | [(index, mainWord, moduleWord)] =>
      pair? .byDirectory ⟨Text.joinWith "/" (mainParts.take index), mainWord, []⟩
        ⟨Text.joinWith "/" (moduleParts.take index), moduleWord, []⟩ (.ofWord mainWord) (.ofWord moduleWord)
    | _ => none

/-- Two paths that differ in the extension only. -/
def byExtension? (main module : Text) : Option BuildPattern :=
  let (mainBase, mainExtension) := Written.splitSuffix main
  let (moduleBase, moduleExtension) := Written.splitSuffix module
  if mainBase ≠ moduleBase ∨ mainExtension = moduleExtension then none
  else
    pair? .byExtension ⟨mainBase, mainExtension, []⟩ ⟨moduleBase, moduleExtension, []⟩
      (.ofExtension mainExtension) (.ofExtension moduleExtension)

/-- The letters that a name starts with, the point or hyphen after them, and the rest. -/
def nameStart? (name : Text) : Option (Text × Text × Text) :=
  let letters := name.takeWhile fun c => c.fold.isLower
  if letters.isEmpty then none
  else
    match name.drop letters.length with
    | c :: rest => if c = '.' ∨ c = '-' then some (letters, [c], rest) else none
    | [] => none

/-- Two files of one directory whose names differ in a word at the start only. -/
def byNameStart? (main module : Text) : Option BuildPattern :=
  let (mainDirectory, mainName) := Written.split main
  let (moduleDirectory, moduleName) := Written.split module
  if mainDirectory ≠ moduleDirectory then none
  else
    match nameStart? mainName, nameStart? moduleName with
    | some (mainWord, mainSeparator, mainRest), some (moduleWord, moduleSeparator, moduleRest) =>
      if mainRest ≠ moduleRest then none
      else
        pair? .byNameStart ⟨mainDirectory, mainWord, mainSeparator⟩ ⟨moduleDirectory, moduleWord, moduleSeparator⟩
          (.ofWord mainWord) (.ofWord moduleWord)
    | _, _ => none

/-- How two entry points, written with `./` in front, show two builds. -/
def ofDotted (main module : Text) : BuildPattern :=
  if main = module then .single
  else ((byDirectory? main module <|> byExtension? main module) <|> byNameStart? main module).getD .single

/-- How the entry points of a package show two builds; an absent or empty one shows nothing. -/
def detect (main module : Option Text) : BuildPattern :=
  match main.filter (!·.isEmpty), module.filter (!·.isEmpty) with
  | some main, some module => ofDotted (Relative.dotted main) (Relative.dotted module)
  | _, _ => .single

def isDual : BuildPattern → Bool
  | .single => false
  | .dual .. => true

end BuildPattern

end PackageExports
