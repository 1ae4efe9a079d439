import PackageExports.Settings.Basic
import PackageExports.Settings.Lenient

/-!
# Checking values

A record is built from the members of an object, and all faults are found at once. A fault is the place of the value
that does not fit: the names and indices on the way to it with points between them.

Main definitions: `Checked`, `BatchSettings.check`, `Settings.check`.
-/

namespace PackageExports

/-- A value with the places of the faults found while it was built; it stands only if there are none. -/
structure Checked (α : Type) where
  value : α
  faults : List Text := []

namespace Checked

variable {α β : Type}

instance : Monad Checked where
  pure a := ⟨a, []⟩
  bind x f :=
    let y := f x.value
    ⟨y.value, x.faults ++ y.faults⟩

/-- The value, or the faults if there are any. -/
def toExcept (x : Checked α) : Except (List Text) α :=
  if x.faults.isEmpty then .ok x.value else .error x.faults

/-- What a value stands for, or a stand-in and a fault. -/
def need (place : Text) (standIn : α) : Option α → Checked α
  | some a => ⟨a, []⟩
  | none => ⟨standIn, [place]⟩

/-- The member of an object under the first of several names that it has, with that name. -/
def member? (members : Keyed Text Json) (names : List Text) : Option (Text × Json) :=
  names.findSome? fun name => (members.get? name).map fun value => (name, value)

/-- The member under a name read by `read`, or a default if it is absent. -/
def field (members : Keyed Text Json) (name : Text) (default : α) (read : Text → Json → Checked α) : Checked α :=
  match members.get? name with
  | some value => read name value
  | none => pure default

def text (place : Text) (value : Json) : Checked Text :=
  need place [] value.text?

def below (place : Text) (name : Text) : Text :=
  if place.isEmpty then name else place ++ "." ++ name

/-- The items of a list of strings, counted from `index`. -/
def textsFrom (place : Text) : (index : Nat) → List Json → Checked (List Text)
  | _, [] => pure []
  | index, item :: items => do
    let first ← text (below place (Text.ofNat index)) item
    let rest ← textsFrom place (index + 1) items
    return first :: rest

def texts (place : Text) : Json → Checked (List Text)
  | .array items => textsFrom place 0 items
  | _ => ⟨[], [place]⟩

end Checked

namespace BatchSettings

/-- A positive integer as a number of slots. -/
def slots? (n : Int) : Option Slots :=
  if h : 0 < n.toNat then some ⟨n.toNat, h⟩ else none

/-- The batch settings that the members of an object give; the number of items under way and the time are positive. -/
def ofMembers (place : Text) (members : Keyed Text Json) : Checked BatchSettings := do
  let standard : BatchSettings := {}
  let place (name : Text) : Text := Checked.below place name
  let concurrency ← Checked.field members "concurrency" standard.concurrency fun name value =>
    Checked.need (place name) standard.concurrency (value.integer?.bind slots?)
  let continueOnError ← Checked.field members "continue_on_error" standard.continueOnError fun name value =>
    Checked.need (place name) true value.bool?
  let operationTimeout ← Checked.field members "operation_timeout" standard.operationTimeout fun name value =>
    Checked.need (place name) standard.operationTimeout (value.real?.filter Binary64.isPositive)
  let collectStats ← Checked.field members "collect_stats" standard.collectStats fun name value =>
    Checked.need (place name) true value.bool?
  return { concurrency, continueOnError, operationTimeout, collectStats }

def ofJson (place : Text) : Json → Checked BatchSettings
  | .object members => ofMembers place members
  | _ => ⟨{}, [place]⟩

def check (value : Json) : Except (List Text) BatchSettings :=
  (ofJson [] value).toExcept

end BatchSettings

namespace Settings

/-- The settings that the members of an object give; other members count for nothing. -/
def ofMembers (members : Keyed Text Json) : Checked Settings := do
  let standard : Settings := {}
  let buildDirectories ← Checked.field members "build_dirs" standard.buildDirectories Checked.texts
  let sourceDirectories ← Checked.field members "source_dirs" standard.sourceDirectories Checked.texts
  let packageIgnore ← Checked.field members "package_ignore" standard.packageIgnore Checked.texts
  let scanIgnore ← Checked.field members "scan_ignore" standard.scanIgnore Checked.texts
  let scanExtensions ← Checked.field members "scan_extensions" standard.scanExtensions Checked.texts
  let batch ← Checked.field members "batch" standard.batch BatchSettings.ofJson
  return { buildDirectories, sourceDirectories, packageIgnore, scanIgnore, scanExtensions, batch }

def check : Json → Except (List Text) Settings
  | .object members => (ofMembers members).toExcept
  | _ => .error [[]]

end Settings

end PackageExports
