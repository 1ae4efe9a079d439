import PackageExports.Command.Line
import PackageExports.FileSystem.Make

/-!
# The program

Runs a command line on the disk. What stands below the working directory and below the paths that the command line
names is read into a file system, the command runs on that, and the files it changed are written back. Notices and
remarks go to the error channel.
-/

namespace PackageExports

namespace Disk

def entryOf (path : String) : IO.FS.DirEntry :=
  { root := "/", fileName := path }

def pathOf (location : Location) : String :=
  (FileSystem.pathTo location).text.toString

def locationOf (path : String) : Location :=
  (Path.ofText (Written.normalize path)).segments

/-- The file system with what stands at an absolute path and below it, and where the links there lead. What cannot be
read is left out. -/
partial def load (fs : FileSystem) (path : String) : IO FileSystem := do
  let location := locationOf path
  if (fs.entryAt? location).isSome then return fs
  try
    match (← (entryOf path).path.symlinkMetadata).type with
    | .file => return fs.put location (.file (← IO.FS.readBinFile path).toList)
    | .dir =>
      (← (entryOf path).path.readDir).foldlM (fun fs entry => load fs entry.path.toString)
        (fs.put location .directory)
    | .symlink =>
      let target := (← IO.FS.realPath path).toString
      load (fs.put location (.link target)) target
    | .other => return fs
  catch _ => return fs

def isLink (path : String) : IO Bool := do
  try return (← (entryOf path).path.symlinkMetadata).type matches .symlink
  catch _ => return false

/-- The file system with the links on the way to a location, and with all that stands there. -/
def loadNamed (fs : FileSystem) (location : Location) : IO FileSystem := do
  let ways := (List.range location.length).map fun n => pathOf (location.take n)
  load (← (← ways.filterM isLink).foldlM load fs) (pathOf location)

/-- The file system with the directories in which its entries stand. -/
def withParents (fs : FileSystem) : FileSystem :=
  fs.entries.keys.foldl
    (fun fs location => (fs.makeDirectories (FileSystem.pathTo location.dropLast)).1) fs

/-- The locations that the words of a command line may name, as seen from a directory. -/
def namedBy (here : Path) (words : List Text) : List Location :=
  words.map fun word =>
    let value := ((Text.splitAtFirst? '=' word).map Prod.snd).getD word
    locationOf (here.joinText value).text.toString

/-- The part of the disk that a command line run in a directory concerns. -/
def fileSystemFor (directory : String) (words : List Text) : IO FileSystem := do
  let here := locationOf directory
  let fs ← loadNamed FileSystem.empty here
  let fs ← (namedBy (FileSystem.pathTo here) words).foldlM loadNamed fs
  return { withParents fs with workingDirectory := here }

/-- Writes to the disk what one file system holds and another did not. -/
def save (old new : FileSystem) : IO Unit :=
  new.entries.forM fun (location, entry) => do
    let path := pathOf location
    if old.entryAt? location ≠ some entry then
      match entry with
      | .file content => IO.FS.writeBinFile path ⟨content.toArray⟩
      | .directory => IO.FS.createDirAll path
      | .link _ => return

/-- Runs a command line in the working directory; the result is the exit code. -/
def run (arguments : List String) : IO UInt32 := do
  let words := arguments.map Text.ofString
  let files ← fileSystemFor (← IO.currentDir).toString words
  let (result, world) := (CommandLine.run words).run { files, notices := [] }
  save files world.files
  for notice in world.notices do
    IO.eprintln (notice.lineWith Cause.message).toString
  IO.eprint result.remarks.toString
  IO.print result.output.toString
  return result.code.toUInt32

end Disk

end PackageExports

/-- Runs a command line. -/
def main (arguments : List String) : IO UInt32 :=
  PackageExports.Disk.run arguments
