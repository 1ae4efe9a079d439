import PackageExports.FileSystem.Resolve
import PackageExports.Json.Reader
import PackageExports.Path.Relative
import PackageExports.Text.Blank
import PackageExports.Text.Newline
import PackageExports.Text.Word
import PackageExports.World

/-!
# The module system of a file

The extension decides first, then the `type` field of the nearest package.json between the file and the top of its
package, then the words of the file: an import or an export makes it an ES module, a call of `require` or an
assignment to `exports` a CommonJS module.

Main definitions: `ModuleKind`, `ModuleKind.sniff`, `ModuleKind.detect`.
-/

namespace PackageExports

/-- The module system of a file, as far as it can be told. -/
inductive ModuleKind where
  | esm
  | cjs
  | unknown
deriving DecidableEq

/-- Whether a condition on the code point before a place and the text from there holds at some place of a text. -/
def Text.anyPlace (holds : Option CodePoint → Text → Bool) : Option CodePoint → Text → Bool
  | _, [] => false
  | before, t@(c :: rest) => holds before t || anyPlace holds (some c) rest

namespace ModuleKind

/-- Whether a word may begin after `before`. -/
def wordMayBegin : Option CodePoint → Bool
  | some c => !c.isWord
  | none => true

def wordThenMark (word : Text) (mark : CodePoint) (t : Text) : Bool :=
  match Text.dropStart? word t with
  | some after => (after.dropWhile CodePoint.isBlank).head? = some mark
  | none => false

def wordThenBlank (word t : Text) : Bool :=
  match Text.dropStart? word t with
  | some (c :: _) => c.isBlank
  | _ => false

/-- A place where an import or an export begins. -/
def beginsModuleSyntax (before : Option CodePoint) (t : Text) : Bool :=
  wordMayBegin before && (wordThenBlank "import" t || wordThenBlank "export" t || wordThenMark "import" '(' t)

/-- A place where a module is required or where exports are assigned or used. -/
def beginsCommonSyntax (before : Option CodePoint) (t : Text) : Bool :=
  (wordMayBegin before && wordThenMark "require" '(' t) || wordThenMark "module.exports" '=' t ||
    wordThenMark "exports" '.' t

/-- The module system that the words of a source text show. -/
def sniff (t : Text) : ModuleKind :=
  if Text.anyPlace beginsModuleSyntax none t then .esm
  else if Text.anyPlace beginsCommonSyntax none t then .cjs
  else .unknown

def ofTypeField : Option Json → Option ModuleKind
  | some (.string t) => if t = "module" then some .esm else if t = "commonjs" then some .cjs else none
  | _ => none

/-- The module system that a package.json declares, none if it cannot be read. -/
def declaredIn (fs : FileSystem) (path : Text) : Option ModuleKind :=
  match fs.readText path with
  | .ok t =>
    match Json.parse? t with
    | some manifest => ofTypeField (manifest.member? "type")
    | none => none
  | .error _ => none

/-- The directories in which to look for a package.json: from `start` up to `top`, or only `start` if it is not below
`top`. -/
def levels (top start : Location) : List Location :=
  if top.isPrefixOf start then
    (List.range (start.length - top.length + 1)).map fun n => start.take (start.length - n)
  else [start]

/-- What the first package.json in a row of directories declares. -/
def declaredAt (fs : FileSystem) : List Location → Except AccessError (Option ModuleKind)
  | [] => .ok none
  | location :: rest => do
    let manifest := ((FileSystem.pathTo location).child "package.json").text
    if ← fs.check manifest (some .file) then return declaredIn fs manifest
    declaredAt fs rest

/-- A path with a null or a lone surrogate in it means no location. -/
def checkName (path : Text) : Except AccessError Unit :=
  if path.any (·.val == 0) then .error .nullInPath
  else if path.any CodePoint.isSurrogate then .error .unwritablePath
  else .ok ()

/-- The module system of a file of the package at `package`. -/
def detect (fs : FileSystem) (package : Path) (file : Text) : Except AccessError ModuleKind := do
  let relative := Relative.bare file
  let extension := (Written.splitSuffix relative).2
  if extension = ".mjs" then return .esm
  if extension = ".cjs" then return .cjs
  let path := package / relative
  checkName path.text
  match ← declaredAt fs (levels (fs.realPath package) (fs.realPath path).dropLast) with
  | some kind => return kind
  | none =>
    if ← fs.check path.text (some .file) then
      match fs.readTextReplacing path.text with
      | .ok t => return sniff t
      | .error _ => return .unknown
    else return .unknown

end ModuleKind

end PackageExports
