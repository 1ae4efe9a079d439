import PackageExports.Text.Blank

/-!
# JSON with comments

Settings files of compilers may hold comments and commas before a closing bracket. `Json.dropNoise` takes both out and
leaves strings as they are; a comma counts if only white space stands between it and the bracket. An unfinished string
or comment is left to the reader to refuse.
-/

namespace PackageExports.Json

/-- How far it is to the end of a string, its closing quotation mark included. -/
def stringEnd? (escaped : Bool) : Text → Option Nat
  | [] => none
  | c :: rest =>
    if escaped then (stringEnd? false rest).map (· + 1)
    else if c = '"' then some 1
    else (stringEnd? (c = '\\') rest).map (· + 1)

/-- How far it is to the end of a block comment, its closing mark included. -/
def blockEnd? : Text → Option Nat
  | [] => none
  | c :: rest => if c = '*' ∧ rest.head? = some '/' then some 2 else (blockEnd? rest).map (· + 1)

/-- What stands at a place of a text: something to keep or to drop, by the number of code points after the first. -/
inductive Stretch where
  | keep (more : Nat)
  | drop (more : Nat)

/-- The stretch that begins with `c`, given what follows. -/
def stretch (c : CodePoint) (rest : Text) : Stretch :=
  if c = '"' then .keep ((stringEnd? false rest).getD 0)
  else if c = '/' ∧ rest.head? = some '/' then .drop (rest.takeWhile (· != CodePoint.ofChar '\n')).length
  else if c = '/' ∧ rest.head? = some '*' then
    match blockEnd? rest.tail with
    | some more => .drop (more + 1)
    | none => .keep 0
  else if c = ',' then
    match (rest.dropWhile CodePoint.isBlank).head? with
    | some d => if d = '}' ∨ d = ']' then .drop 0 else .keep 0
    | none => .keep 0
  else .keep 0

/-- Copies a text without its noise, when `keep` more code points are to be kept, or else `drop` more dropped. -/
def dropNoiseFrom : (keep drop : Nat) → Text → Text
  | _, _, [] => []
  | keep + 1, _, c :: rest => c :: dropNoiseFrom keep 0 rest
  | 0, drop + 1, _ :: rest => dropNoiseFrom 0 drop rest
  | 0, 0, c :: rest =>
    match stretch c rest with
    | .keep more => c :: dropNoiseFrom more 0 rest
    | .drop more => dropNoiseFrom 0 more rest

/-- The text without its comments and without the commas before closing brackets. -/
def dropNoise (t : Text) : Text :=
  dropNoiseFrom 0 0 t

end PackageExports.Json
