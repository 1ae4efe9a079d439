import PackageExports.Notice
import PackageExports.Text.Newline

/-!
# Effects

The commands act on a file system and give notices. What they did before they fail remains done: an `Action` passes on
its world in either case.

Text is read with its line ends unified. A text that is written empties the file before it is encoded, so a text with
a lone surrogate leaves an empty file behind.

Main definitions: `World`, `Action`, `FileSystem.readText`, `Action.writeText`.
-/

namespace PackageExports

/-- The file system and the notices given so far. -/
structure World where
  files : FileSystem
  notices : List Notice

/-- A computation with effects on a world that may fail. -/
abbrev Action (α : Type) := ExceptT Failure (StateM World) α

def FileSystem.readText (fs : FileSystem) (path : Text) : Except Cause Text :=
  match fs.read path with
  | .error e => .error (.access e)
  | .ok bytes =>
    match Utf8.decode? bytes with
    | some t => .ok (Text.unifyNewlines t)
    | none => .error .notUtf8

/-- The text of a file, whatever its bytes. -/
def FileSystem.readTextReplacing (fs : FileSystem) (path : Text) : Except AccessError Text :=
  (fs.read path).map fun bytes => Text.unifyNewlines (Utf8.decodeReplacing bytes)

namespace Action

variable {α : Type}

def files : Action FileSystem := do
  return (← get).files

def note (n : Notice) : Action Unit :=
  modify fun w => { w with notices := w.notices ++ [n] }

/-- Gives the notices of a computation that only gives notices. -/
def ofNoted (x : Noted α) : Action α := do
  modify fun w => { w with notices := w.notices ++ x.notices }
  return x.value

/-- A result that is there already, or a failure. -/
def ofExcept (r : Except Failure α) : Action α :=
  ExceptT.mk (pure r)

/-- Runs a computation that only gives notices and may fail. -/
def ofAttempt (x : Attempt α) : Action α := do
  ofExcept (← ofNoted x.run)

def writeText (path : Path) (t : Text) : Action (Except Cause Unit) := do
  let w ← get
  match w.files.write path.text [] with
  | .error e => return .error (.access e)
  | .ok emptied =>
    match Utf8.encode? t with
    | none =>
      set { w with files := emptied }
      return .error .notEncodable
    | some bytes =>
      match w.files.write path.text bytes with
      | .error e => return .error (.access e)
      | .ok written =>
        set { w with files := written }
        return .ok ()

end Action

end PackageExports
