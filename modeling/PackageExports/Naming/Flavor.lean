import PackageExports.Text.CaseFold

/-!
# Module systems by name

Build tools mark CommonJS and ES module output by conventional words for directories and file names, and by
extensions. A word or an extension is of a `Flavor`; two of them make a pair if one can stand for each module system.

Main definitions: `Flavor.ofWord`, `Flavor.ofExtension`, `Flavor.cjsSide?`.
-/

namespace PackageExports

/-- Which module system a word or an extension stands for. -/
inductive Flavor where
  | cjs
  | esm
  | either
  | unknown
deriving DecidableEq

/-- One of two things that are compared. -/
inductive Side where
  | first
  | second
deriving DecidableEq

namespace Flavor

def cjsWords : List Text :=
  ["cjs", "commonjs", "common", "node"]

def esmWords : List Text :=
  ["esm", "es", "module", "modules", "import"]

/-- The flavor of a word, without regard to case or to one line feed at its end. -/
def ofWord (word : Text) : Flavor :=
  let folded := Text.fold ((Text.dropEnd? "\n" word).getD word)
  if folded ∈ cjsWords then .cjs
  else if folded ∈ esmWords then .esm
  else .unknown

/-- The flavor of an extension: the plain one is left open. -/
def ofExtension (extension : Text) : Flavor :=
  if extension = ".cjs" then .cjs
  else if extension = ".mjs" then .esm
  else if extension = ".js" then .either
  else .unknown

/-- Whether something of this flavor may stand for `wanted`. -/
def accepts (flavor wanted : Flavor) : Bool :=
  flavor = wanted || flavor = .either

/-- The side that is CommonJS if the other one is ES modules; the two must differ. -/
def cjsSide? (first second : Flavor) : Option Side :=
  if first = second then none
  else if first.accepts .cjs && second.accepts .esm then some .first
  else if second.accepts .cjs && first.accepts .esm then some .second
  else none

end Flavor

end PackageExports
