import PackageExports.Settings.Check
import PackageExports.World
import PackageExports.Yaml.Construction

/-!
# Reading the settings

Settings are written in YAML, as a mapping from their names. An empty document, or a false or empty value, leaves the
defaults in place. A command takes its settings from the file that it is given, which must be there, and else from
`exportify.yaml` in its directory if there is one.

Main definitions: `Settings.ofYaml`, `Settings.read`, `Settings.load`.
-/

namespace PackageExports.Settings

/-- How deep collections stand in each other in settings. -/
def depth : Nat :=
  2

/-- Whether a key is a text. -/
def isName (key : Yaml.Atom) : Bool :=
  match key with
  | .text _ => true
  | _ => false

def ofYaml (path : Path) (document : Yaml.Document) : Except Failure Settings :=
  -- an empty file, but also `false`, `0` and an empty list
  if !document.isTruthy then .ok {}
  else
    match document.keys? with
    | some keys =>
      if keys.all isName then (check (document.toJson depth)).mapError (.settingsInvalid path)
      else .error .settingNameNotText
    | none => .error (.settingsNotMapping path)

def read (fs : FileSystem) (path : Path) : Except Failure Settings :=
  match fs.readText path.text with
  | .error .notUtf8 => .error (.cause .notUtf8)
  | .error c => .error (.settingsUnreadable path c)
  | .ok t =>
    match Yaml.load t with
    | .error .malformed => .error (.settingsMalformed path)
    | .error fault => .error (.yamlValueUnreadable fault)
    | .ok document => ofYaml path document

def fileName : Text :=
  "exportify.yaml"

/-- The settings for a command that works in a directory. -/
def load (fs : FileSystem) (given : Option Path) (directory : Path) : Attempt Settings := do
  match given with
  | some path =>
    if ← Attempt.ofAccess (fs.check path.text none) then Attempt.ofExcept (read fs path)
    else throw (.settingsMissing path)
  | none =>
    let path := directory / fileName
    if ← Attempt.ofAccess (fs.check path.text none) then
      Attempt.note (.settingsFrom path)
      Attempt.ofExcept (read fs path)
    else return {}

end PackageExports.Settings
