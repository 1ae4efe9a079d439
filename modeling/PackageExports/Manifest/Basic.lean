import PackageExports.Settings.Check

/-!
# Package manifests

What a `package.json` says about a package. A member of the wrong kind counts as absent, so a careless manifest is
still a manifest; only the kind of modules, when it is given under the name `package_type`, has to be a string.

Main definitions: `Manifest`, `Manifest.ofMembers`, `Manifest.check`.
-/

namespace PackageExports

/-- The `browser` member: a replacement for the whole package, or a table of replacements in which a file without one
is blocked. -/
inductive BrowserField where
  | whole (target : Text)
  | table (targets : Keyed Text (Option Text))
deriving DecidableEq

/-- A manifest. -/
structure Manifest where
  name : Option Text := none
  main : Option Text := none
  module : Option Text := none
  types : Option Text := none
  typings : Option Text := none
  source : Option Text := none
  moduleType : Option Text := none
  isPrivate : Option Bool := none
  browser : Option BrowserField := none
  exports : Option Json := none

namespace BrowserField

/-- A replacement that counts: a string, or `false` for none. -/
def target? : Json → Option (Option Text)
  | .string t => some (some t)
  | .bool false => some none
  | _ => none

def ofJson? : Json → Option BrowserField
  | .string t => some (.whole t)
  | .object members => some (.table (members.filterMap fun (key, value) => (target? value).map fun t => (key, t)))
  | _ => none

def targetToJson : Option Text → Json
  | some t => .string t
  | none => .bool false

def toJson : BrowserField → Json
  | .whole t => .string t
  | .table targets => .object (targets.map fun (key, target) => (key, targetToJson target))

end BrowserField

namespace Manifest

def text? (members : Json.Members) (name : Text) : Option Text :=
  (members.value? name).bind Json.text?

def flag? (members : Json.Members) (name : Text) : Option Bool :=
  match members.value? name with
  | some (.bool b) => some b
  | _ => none

/-- The kind of modules: the string under `type`, else what is under `package_type`. -/
def moduleTypeOf (members : Json.Members) : Checked (Option Text) :=
  match text? members "type" with
  | some t => pure (some t)
  | none =>
    match members.value? "package_type" with
    | none | some .null => pure none
    | some value => Checked.need "package_type" none (value.text?.map some)

/-- The value under `exports`; a null is no value. -/
def exportsOf (members : Json.Members) : Option Json :=
  match members.value? "exports" with
  | some .null => none
  | value => value

/-- The manifest that the members of an object give by their values. -/
def ofValues (members : Json.Members) : Checked Manifest := do
  let moduleType ← moduleTypeOf members
  return {
    name := text? members "name"
    main := text? members "main"
    module := text? members "module"
    types := text? members "types"
    typings := text? members "typings"
    source := text? members "source"
    moduleType
    isPrivate := flag? members "private"
    browser := (members.value? "browser").bind BrowserField.ofJson?
    exports := exportsOf members }

/-- The manifest that the members of an object give, or the places of its faults. The object as a whole is at fault if
one of its names holds a lone surrogate. -/
def ofMembers (members : Json.Members) : Except (List Text) Manifest :=
  if members.any fun (name, _) => name.any CodePoint.isSurrogate then .error [[]] else (ofValues members).toExcept

/-- The manifest that a value gives, or the places of its faults. -/
def check : Json → Except (List Text) Manifest
  | .object members => ofMembers members
  | _ => .error [[]]

/-- The file of type declarations: `types`, or else the older name `typings`. -/
def typesField (m : Manifest) : Option Text :=
  match m.types with
  | some t => if t.isEmpty then m.typings else some t
  | none => m.typings

end Manifest

end PackageExports
