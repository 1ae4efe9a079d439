import PackageExports.Text.Basic

/-!
# Paths as they are written

Operations on the text of a path, without looking at any file: cutting off the last segment or the suffix, joining,
and removing `.` and `..` segments by reckoning.

Main definitions: `Written.split`, `Written.splitSuffix`, `Written.join`, `Written.normalize`.
-/

namespace PackageExports.Written

/-- The text up to and including the last slash, and what follows it. -/
def cutAtLastSlash (path : Text) : Text × Text :=
  match Text.splitAtLast? '/' path with
  | some (head, tail) => (head ++ "/", tail)
  | none => ([], path)

/-- The directory and the last segment. The directory loses its trailing slashes, unless it has nothing else. -/
def split (path : Text) : Text × Text :=
  let (head, tail) := cutAtLastSlash path
  let directory := Text.trimEnd '/' head
  (if directory.isEmpty then head else directory, tail)

/-- A file name without its suffix, and the suffix: the last point and what follows. Points at the start of the name
do not begin a suffix. -/
def splitName (name : Text) : Text × Text :=
  let dots := Text.leading '.' name
  match Text.splitAtLast? '.' (name.drop dots) with
  | some (stem, suffix) => (name.take dots ++ stem, '.' :: suffix)
  | none => (name, [])

/-- A path without the suffix of its last segment, and that suffix. -/
def splitSuffix (path : Text) : Text × Text :=
  let (head, name) := cutAtLastSlash path
  let (stem, suffix) := splitName name
  (head ++ stem, suffix)

/-- One path below another; an absolute second path replaces the first. -/
def join (path next : Text) : Text :=
  if Text.startsWith next "/" ∨ path.isEmpty then next
  else if Text.endsWith path "/" then path ++ next
  else path ++ "/" ++ next

def joinAll (path : Text) (nexts : List Text) : Text :=
  nexts.foldl join path

/-- One segment on top of segments already reckoned, the last of them first: `..` takes one away if it can. -/
def reckon (absolute : Bool) (done : List Text) (segment : Text) : List Text :=
  if segment = [] ∨ segment = "." then done
  else if segment ≠ ".." then segment :: done
  else
    match done with
    | [] => if absolute then [] else [segment]
    | last :: earlier => if last = ".." then segment :: done else earlier

/-- The slashes that a path starts with, as far as they count: none, one, or exactly two. -/
def leadingSlashes (path : Text) : Text :=
  match Text.leading '/' path with
  | 0 => []
  | 2 => "//"
  | _ => "/"

/-- The path without empty segments and `.`, and with each `..` taken together with the segment before it. -/
def normalize (path : Text) : Text :=
  let slashes := leadingSlashes path
  let segments := ((Text.splitOn '/' path).foldl (reckon !slashes.isEmpty) []).reverse
  let text := slashes ++ Text.joinWith "/" segments
  if text.isEmpty then "." else text

end PackageExports.Written
