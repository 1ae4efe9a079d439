import PackageExports.Command.Arguments
import PackageExports.Exports.Update
import PackageExports.Settings.Load
import PackageExports.Usage.Scan

/-!
# The command line

`evaluate` scans a repository for imports and records them in a usage file; `fix` brings the exports of the packages
of a repository up to date with a usage file. A command that fails says why and ends with code 1, a command line that
cannot be understood ends with code 2.

Main definitions: `CommandLine.interpret`, `CommandLine.run`.
-/

namespace PackageExports

/-- What a command leaves besides its effects: an exit code, output, and remarks on the error channel. -/
structure CommandResult where
  code : Nat := 0
  output : Text := []
  remarks : Text := []
  failure : Option Failure := none

/-- A command to run. -/
inductive Command where
  | help
  | version
  | evaluate (scan : UsageScan)
  | fix (update : ExportsUpdate)

/-- A command with the settings file that was named for it. -/
structure CommandRequest where
  command : Command
  settingsFile : Option Path := none

namespace CommandLine

def commonOptions : List OptionSpec :=
  [{ name := "--version" }, { name := "--verbose", letter := some 'v' }, { name := "--config", takesValue := true },
    { name := "--help" }]

def evaluateOptions : List OptionSpec :=
  [{ name := "--cwd", takesValue := true }, { name := "--main-repo", takesValue := true },
    { name := "--private-only" }, { name := "--help" }]

def fixOptions : List OptionSpec :=
  [{ name := "--cwd", takesValue := true }, { name := "--dry-run" }, { name := "--detect-structure" },
    { name := "--help" }]

/-- The path that an option gives, which must not lead to a file. -/
def directoryOption (fs : FileSystem) (a : Arguments) (name : Text) : Except UsageError (Option Path) :=
  match a.value? name with
  | some value => if fs.isFile value then .error (.notDirectory name) else .ok (some (Path.ofText value))
  | none => .ok none

def workingDirectory (fs : FileSystem) (a : Arguments) : Except UsageError Path :=
  (directoryOption fs a "--cwd").map fun given => given.getD (FileSystem.pathTo fs.workingDirectory)

/-- The usage file among the operands, and the other operands. -/
def usageFile : List Text → Except UsageError (Path × List Text)
  | [] => .error (.operandMissing "USAGE_FILE")
  | file :: rest => .ok (Path.ofText file, rest)

def evaluateCommand (fs : FileSystem) (a : Arguments) : Except UsageError Command := do
  if a.has "--help" then return .help
  let directory ← workingDirectory fs a
  let repository ← directoryOption fs a "--main-repo"
  match ← usageFile a.operands with
  | (file, []) =>
    return .evaluate { directory, usageFile := file, repository, privateOnly := a.has "--private-only" }
  | (_, word :: _) => .error (.operandUnwanted word)

def fixCommand (fs : FileSystem) (a : Arguments) : Except UsageError Command := do
  if a.has "--help" then return .help
  let directory ← workingDirectory fs a
  let update (file : Path) (packageName : Option Text) : Command :=
    .fix { directory, usageFile := file, packageName, dryRun := a.has "--dry-run",
           detectLayout := a.has "--detect-structure" }
  match ← usageFile a.operands with
  | (file, []) => return update file none
  | (file, [name]) => return update file (some name)
  | (_, _ :: word :: _) => .error (.operandUnwanted word)

def commandNamed (fs : FileSystem) (name : Text) (rest : List Text) : Except UsageError Command := do
  if name = "evaluate" then evaluateCommand fs (← Arguments.read evaluateOptions false rest)
  else if name = "fix" then fixCommand fs (← Arguments.read fixOptions false rest)
  else .error (.commandUnknown name)

/-- What a command line asks for. -/
def interpret (fs : FileSystem) (words : List Text) : Except UsageError CommandRequest := do
  let common ← Arguments.read commonOptions true words
  match common.firstOf ["--version", "--help"] with
  | some first => return { command := if first = "--version" then .version else .help }
  | none =>
    match common.operands with
    | [] => .error .commandMissing
    | name :: rest =>
      return { command := ← commandNamed fs name rest, settingsFile := (common.value? "--config").map Path.ofText }

def versionText : Text :=
  "exportify, version 1.0.0\n"

def helpText : Text :=
  Text.joinWith "\n" [
    "Usage: exportify [--verbose] [--config FILE] COMMAND",
    "",
    "Commands:",
    "  evaluate USAGE_FILE [--cwd DIRECTORY] [--main-repo DIRECTORY] [--private-only]",
    "  fix USAGE_FILE [PACKAGE_NAME] [--cwd DIRECTORY] [--dry-run] [--detect-structure]",
    ""]

def evaluate (settingsFile : Option Path) (scan : UsageScan) : Action CommandResult := do
  let settings ← Action.ofAttempt (Settings.load (← Action.files) settingsFile scan.directory)
  let report ← { scan with settings }.run
  let remarks : Text :=
    if report.failedFiles = 0 then [] else Text.ofNat report.failedFiles ++ " files could not be analyzed\n"
  return { output := "Usage data updated in: " ++ scan.usageFile.text ++ "\n", remarks }

/-- The lines that say what became of a package. -/
def updateText (dryRun : Bool) (u : PackageUpdate) : Text :=
  if dryRun then
    "\n--- " ++ u.name ++ " ---\n" ++ (Json.object [("exports", .object u.exports)]).pretty ++ "\n"
  else if u.written then
    "Updated exports for " ++ u.name ++ ": " ++ Text.ofNat u.exports.length ++ " entries\n"
  else "No changes needed for " ++ u.name ++ ": exports are already up to date\n"

def fix (settingsFile : Option Path) (update : ExportsUpdate) : Action CommandResult := do
  let settings ← Action.ofAttempt (Settings.load (← Action.files) settingsFile update.directory)
  let updates ← { update with settings }.run
  let last : Text := if update.dryRun then [] else "Exports maps generated successfully\n"
  return {
    output :=
      updates.flatMap (updateText update.dryRun) ++
        "Processed exports for " ++ Text.ofNat updates.length ++ " packages\n" ++ last }

def perform (r : CommandRequest) : Action CommandResult :=
  match r.command with
  | .help => return { output := helpText }
  | .version => return { output := versionText }
  | .evaluate scan => evaluate r.settingsFile scan
  | .fix update => fix r.settingsFile update

/-- Runs the command that a command line asks for. -/
def run (words : List Text) : StateM World CommandResult := do
  match interpret (← get).files words with
  | .error e => return { code := 2, remarks := "Error: " ++ e.message ++ "\n" }
  | .ok request =>
    match ← (perform request).run with
    | .ok result => return result
    | .error failure => return { code := 1, remarks := "Error: " ++ failure.message ++ "\n", failure := some failure }

end CommandLine

end PackageExports
