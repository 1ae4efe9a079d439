import PackageExports.Decimal.Shortest
import PackageExports.FileSystem.Resolve
import PackageExports.Json.Reader
import PackageExports.Yaml.Fault

/-!
# Failures

What stops an operation, by its cause. Wordings are made last: `Failure.messageWith` takes the words for the causes
that lie outside the package format (the file system, the readers of JSON and YAML, the checks of values) as an
argument, and `Failure.message` uses the words of `Cause.message`.

Main definitions: `Cause`, `Failure`, `Failure.message`.
-/

namespace PackageExports

/-- Why a file or a value cannot be used. -/
inductive Cause where
  | access (error : AccessError)
  | notUtf8
  | notJson
  | longInteger
  | notObject
  | notYaml
  | notEncodable
  | invalid (fields : List Text)
  | outside (path base : Path)
deriving DecidableEq

/-- What ends an operation without a result. -/
inductive Failure where
  | cause (cause : Cause)
  | settingsMissing (path : Path)
  | settingsUnreadable (path : Path) (cause : Cause)
  | settingsMalformed (path : Path)
  | settingsNotMapping (path : Path)
  | settingsInvalid (path : Path) (fields : List Text)
  | settingNameNotText
  | yamlValueUnreadable (fault : Yaml.Fault)
  | usageNotObject
  | usageMissing (path : Text)
  | usageUnreadable (path : Text) (cause : Cause)
  | usageMalformed (path : Text) (cause : Cause)
  | manifestUnreadable (path : Path) (cause : Cause)
  | manifestUnwritable (path : Path) (cause : Cause)
  | packageUnknown (name : Text)
  | noBuildDirectory
  | presetUnknown (name : Text)
  | conditionUnknown (name : Text)
  | flavorUnknown (word : Text)
  | reported (kind message : Text)
  | timeout (seconds : Binary64)
  | aborted (label : Text) (failure : Failure)
deriving DecidableEq

def AccessError.message : AccessError → Text
  | .missing => "no such file or directory"
  | .notDirectory => "not a directory"
  | .isDirectory => "is a directory"
  | .tooManyLinks => "too many links"
  | .nameTooLong => "file name too long"
  | .nullInPath => "null in path"
  | .unwritablePath => "lone surrogate in path"

def Cause.message : Cause → Text
  | .access e => e.message
  | .notUtf8 => "not valid UTF-8"
  | .notJson => "not valid JSON"
  | .longInteger => "an integer has too many digits"
  | .notObject => "package.json must contain a JSON object"
  | .notYaml => "not valid YAML"
  | .notEncodable => "lone surrogate in text"
  | .invalid fields => "invalid value: " ++ Text.joinWith ", " fields
  | .outside path base => path.text ++ " is not below " ++ base.text

def Cause.ofRefusal : Json.Refusal → Cause
  | .malformed => .notJson
  | .longInteger => .longInteger

namespace Failure

/-- The message of a failure, with given words for causes; a reported failure without words is named by its kind. -/
def messageWith (words : Cause → Text) : Failure → Text
  | .cause c => words c
  | .settingsMissing path => "Config file not found: " ++ path.text
  | .settingsUnreadable path c => "Cannot read config file " ++ path.text ++ ": " ++ words c
  | .settingsMalformed path => "Invalid YAML in config file " ++ path.text ++ ": " ++ words .notYaml
  | .settingsNotMapping path => "Config file " ++ path.text ++ " must contain a mapping"
  | .settingsInvalid path fields => "Invalid configuration in " ++ path.text ++ ": " ++ words (.invalid fields)
  | .settingNameNotText => "keywords must be strings"
  | .yamlValueUnreadable fault => fault.message
  | .usageNotObject => "Usage file must contain a JSON object"
  | .usageMissing path => "Usage file not found: " ++ path
  | .usageUnreadable path c => "Cannot read usage file " ++ path ++ ": " ++ words c
  | .usageMalformed path c => "Invalid JSON in usage file " ++ path ++ ": " ++ words c
  | .manifestUnreadable path c => "Cannot read " ++ path.text ++ ": " ++ words c
  | .manifestUnwritable path c => "Cannot update " ++ path.text ++ ": " ++ words c
  | .packageUnknown name => "Package '" ++ name ++ "' not found in the repository"
  | .noBuildDirectory => "list index out of range"
  | .presetUnknown name => name
  | .conditionUnknown name => "unknown condition " ++ name
  | .flavorUnknown word => "unknown flavor " ++ word
  | .reported kind message => if message.isEmpty then kind else message
  | .timeout seconds => "Operation timeout after " ++ seconds.text ++ "s"
  | .aborted label failure => "Batch aborted at " ++ label ++ ": " ++ failure.messageWith words

def message (f : Failure) : Text :=
  f.messageWith Cause.message

end Failure

end PackageExports
