import PackageExports.Text.Basic

/-!
# Clean paths

A path read from text forgets repeated slashes, `.` segments and a trailing slash, and keeps `..`. Exactly two
slashes at the start are not the same as one.

Main definitions: `Path`, `Path.ofText`, `Path.text`, `Path.join`, `Path.relativeTo?`.
-/

namespace PackageExports

/-- Where a path starts. -/
inductive Anchor where
  | relative
  | absolute
  | doubleSlash
deriving DecidableEq

/-- A path by its starting point and its segments. -/
structure Path where
  anchor : Anchor
  segments : List Text
deriving DecidableEq

namespace Path

/-- The starting point that the slashes at the start of a text say. -/
def anchorOf (t : Text) : Anchor :=
  match Text.leading '/' t with
  | 0 => .relative
  | 2 => .doubleSlash
  | _ => .absolute

/-- The path that a text writes. -/
def ofText (t : Text) : Path :=
  ⟨anchorOf t, (Text.splitOn '/' t).filter fun segment => !segment.isEmpty && segment != "."⟩

instance : Coe Text Path :=
  ⟨ofText⟩

def anchorText : Anchor → Text
  | .relative => []
  | .absolute => "/"
  | .doubleSlash => "//"

def segmentText (p : Path) : Text :=
  Text.joinWith "/" p.segments

/-- How a path is written: an empty relative path is `.`. -/
def text (p : Path) : Text :=
  if p.anchor = .relative ∧ p.segments = [] then "." else anchorText p.anchor ++ p.segmentText

/-- The path `q` seen from `p`: unchanged if it has a starting point of its own. -/
def join (p q : Path) : Path :=
  if q.anchor = .relative then ⟨p.anchor, p.segments ++ q.segments⟩ else q

/-- The path that a text writes, seen from `p`. -/
def joinText (p : Path) (t : Text) : Path :=
  p.join (ofText t)

instance : HDiv Path Text Path :=
  ⟨joinText⟩

def child (p : Path) (name : Text) : Path :=
  ⟨p.anchor, p.segments ++ [name]⟩

def name (p : Path) : Text :=
  p.segments.getLast?.getD []

/-- The path without its last segment. -/
def parent (p : Path) : Path :=
  ⟨p.anchor, p.segments.dropLast⟩

/-- The last point of the name and what follows, unless it is the first or the last code point of the name. -/
def suffix (p : Path) : Text :=
  match Text.splitAtLast? '.' p.name with
  | some (stem, rest) => if stem.isEmpty || rest.isEmpty then [] else '.' :: rest
  | none => []

/-- What a list goes on with after another list it starts with. -/
def segmentsAfter? : (start segments : List Text) → Option (List Text)
  | [], segments => some segments
  | _ :: _, [] => none
  | a :: as, b :: bs => if a = b then segmentsAfter? as bs else none

/-- The path `p` as seen from `base`, if `base` is where it starts. -/
def relativeTo? (p base : Path) : Option Path :=
  if p.anchor = base.anchor then (segmentsAfter? base.segments p.segments).map (⟨.relative, ·⟩) else none

end Path

end PackageExports
