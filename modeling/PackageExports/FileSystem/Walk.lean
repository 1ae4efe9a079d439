import PackageExports.FileSystem.Resolve

/-!
# Walking directories

The entries below a directory that are reached without entering an unwanted directory or following a link to a
directory. The order is that of a walk from the top down: the files of a directory by name, then the contents of each
of its directories in turn.

Main definitions: `FileSystem.list`, `FileSystem.filesBelow`, `FileSystem.walkLe`.
-/

namespace PackageExports.FileSystem

/-- The names in the directory that a path leads to, in order; none if it does not lead to one. -/
def list (fs : FileSystem) (path : Text) : List Text :=
  match fs.find path with
  | .ok location =>
    Text.sort <| fs.entries.filterMap fun (l, _) =>
      match l.getLast? with
      | some name => if l.dropLast = location then some name else none
      | none => none
  | .error _ => []

/-- The order of a walk: at the first difference a file comes before the contents of directories, and names decide
otherwise. -/
def walkLe : List Text → List Text → Bool
  | [], _ => true
  | _ :: _, [] => false
  | [a], [b] => Text.le a b
  | [_], _ :: _ :: _ => true
  | _ :: _ :: _, [_] => false
  | a :: as@(_ :: _), b :: bs@(_ :: _) => if a = b then walkLe as bs else Text.le a b

def linksToDirectory (fs : FileSystem) (here : Location) (name : Text) : Bool :=
  match fs.follow linkLimit here [name] with
  | .ok (.present location) => fs.entryAt? location = some .directory
  | _ => false

/-- Whether a walk from the directory `here` meets the entry at the end of `names` as a file: the names before the
last are directories that it enters, and the last is no directory and no link to one. -/
def meetsFile (fs : FileSystem) (enter : Text → Bool) (here : Location) : List Text → Bool
  | [] => false
  | name :: rest =>
    if rest.isEmpty then
      match fs.entryAt? (here ++ [name]) with
      | some (.file _) => true
      | some (.link _) => !fs.linksToDirectory here name
      | _ => false
    else fs.entryAt? (here ++ [name]) = some .directory && enter name && meetsFile fs enter (here ++ [name]) rest

/-- The files that a walk below a path meets, each by the names that lead to it from there, in walk order. A directory
is entered if `enter` accepts its name. -/
def filesBelow (fs : FileSystem) (path : Text) (enter : Text → Bool) : List (List Text) :=
  match fs.find path with
  | .ok location =>
    if fs.entryAt? location = some .directory then
      (fs.entries.filterMap fun (l, _) =>
        match Path.segmentsAfter? location l with
        | some names => if fs.meetsFile enter location names then some names else none
        | none => none).mergeSort walkLe
    else []
  | .error _ => []

end PackageExports.FileSystem
