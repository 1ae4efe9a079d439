import PackageExports.Failure

/-!
# Notices

What an operation reports on its way, as information or as a warning. `Noted` is a value together with the notices
given while it was made, and `Attempt` may also end in a failure; the notices given before the failure remain.

Main definitions: `Notice`, `Noted`, `Attempt`.
-/

namespace PackageExports

/-- A report that does not change the result. -/
inductive Notice where
  | settingsFrom (path : Path)
  | usageRecordIgnored (name : Text) (faults : Nat)
  | unparsed (path : Path) (cause : Cause)
  | sourceUnreadable (path : Path) (cause : Cause)
  | importUnresolved (importPath : Text) (package : Path)
  | exportPresent (importPath package : Text)
  | exportSkipped (importPath package : Text) (failure : Failure)
  | itemFailed (label : Text) (failure : Failure)
  | scanning (directory : Path)
  | packagesFound (count : Nat) (directory : Path)
  | usagePresent (count : Nat)
  | usageDiscarded (failure : Failure)
  | sourcesFound (count : Nat)
  | versionsUnknown (path : Path) (cause : Cause)
  | usageSaved (count : Nat)
  | generatingFor (package : Text)
  | generatingBelow (directory : Path)
  | usageLoaded (count : Nat)
  | usageAbsent (package : Text)
  | exportsProcessed (count : Nat)
deriving DecidableEq

namespace Notice

def isWarning : Notice → Bool
  | .usageRecordIgnored .. | .unparsed .. | .sourceUnreadable .. | .importUnresolved .. | .exportSkipped ..
  | .itemFailed .. | .usageDiscarded .. | .versionsUnknown .. | .usageAbsent .. => true
  | _ => false

/-- The message of a notice, with given words for causes. -/
def messageWith (words : Cause → Text) : Notice → Text
  | .settingsFrom path => "Using configuration from " ++ path.text
  | .usageRecordIgnored name faults =>
    "Ignoring malformed usage record for " ++ name ++ ": " ++ Text.ofNat faults ++ " errors"
  | .unparsed path c => "Could not parse " ++ path.text ++ ": " ++ words c
  | .sourceUnreadable path c => "Could not read file " ++ path.text ++ ": " ++ words c
  | .importUnresolved importPath package =>
    "Could not find file for import path \"" ++ importPath ++ "\" in package at " ++ package.text
  | .exportPresent importPath package =>
    "Skipping " ++ importPath ++ " for " ++ package ++ ": export already exists"
  | .exportSkipped importPath package failure =>
    "Skipping " ++ importPath ++ " for " ++ package ++ ": " ++ failure.messageWith words
  | .itemFailed label failure => "Batch operation failed for " ++ label ++ ": " ++ failure.messageWith words
  | .scanning directory => "Scanning imports in: " ++ directory.text
  | .packagesFound count directory =>
    "Found " ++ Text.ofNat count ++ " packages in main repo: " ++ directory.text
  | .usagePresent count => "Loaded existing usage data with " ++ Text.ofNat count ++ " packages"
  | .usageDiscarded failure =>
    "Could not read existing usage file, starting fresh: " ++ failure.messageWith words
  | .sourcesFound count => "Found " ++ Text.ofNat count ++ " source files to analyze"
  | .versionsUnknown path c => "Could not read " ++ path.text ++ " for version information: " ++ words c
  | .usageSaved count => "Updated usage data with " ++ Text.ofNat count ++ " packages"
  | .generatingFor package => "Generating exports map for package: " ++ package
  | .generatingBelow directory => "Generating exports maps for packages in: " ++ directory.text
  | .usageLoaded count => "Loaded usage data for " ++ Text.ofNat count ++ " packages"
  | .usageAbsent package => "No usage data found for package '" ++ package ++ "'"
  | .exportsProcessed count => "Processed exports for " ++ Text.ofNat count ++ " packages"

def lineWith (words : Cause → Text) (n : Notice) : Text :=
  (if n.isWarning then "WARNING " else "INFO ") ++ n.messageWith words

end Notice

/-- A value with the notices given while it was made. -/
structure Noted (α : Type) where
  value : α
  notices : List Notice := []

namespace Noted

variable {α β : Type}

instance : Monad Noted where
  pure a := ⟨a, []⟩
  bind x f :=
    let y := f x.value
    ⟨y.value, x.notices ++ y.notices⟩

def note (n : Notice) : Noted Unit :=
  ⟨(), [n]⟩

@[simp] theorem value_bind (x : Noted α) (f : α → Noted β) : (x >>= f).value = (f x.value).value :=
  rfl

@[simp] theorem notices_bind (x : Noted α) (f : α → Noted β) :
    (x >>= f).notices = x.notices ++ (f x.value).notices :=
  rfl

@[simp] theorem value_pure (a : α) : (pure a : Noted α).value = a :=
  rfl

@[simp] theorem notices_pure (a : α) : (pure a : Noted α).notices = [] :=
  rfl

instance : LawfulMonad Noted :=
  LawfulMonad.mk' Noted
    (fun x => by cases x; simp [Functor.map])
    (fun _ _ => by simp [bind, pure])
    (fun _ _ _ => by simp [bind])

end Noted

/-- A computation that gives notices and may fail. -/
abbrev Attempt (α : Type) := ExceptT Failure Noted α

namespace Attempt

variable {α : Type}

def note (n : Notice) : Attempt Unit :=
  ExceptT.lift (Noted.note n)

/-- A result that is there already, or a failure. -/
def ofExcept (r : Except Failure α) : Attempt α :=
  ExceptT.mk (pure r)

/-- A result whose fault is a cause of failure. -/
def ofAccess (r : Except AccessError α) : Attempt α :=
  ofExcept (r.mapError fun e => .cause (.access e))

end Attempt

end PackageExports
