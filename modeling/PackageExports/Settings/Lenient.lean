import PackageExports.Decimal.Written
import PackageExports.Json.Value
import PackageExports.Text.Blank

/-!
# Lenient values

A number may be given as a string and a truth value as a number or a word; a number without a fraction is as good as an
integer. Strings and lists are taken as they are only.

Main definitions: `Json.integer?`, `Json.real?`, `Json.bool?`.
-/

namespace PackageExports.Json

/-- The text without its underscores, of which none is at an end and no two are side by side. -/
def dropUnderscores? (t : Text) : Option Text :=
  let pieces := Text.splitOn '_' t
  if 1 < pieces.length && pieces.any List.isEmpty then none else some pieces.flatten

/-- The rest of a number after the zeros at its start and any underscores among them; the last of these stays if no
other digit follows. -/
def dropZeros? (t : Text) : Option Text :=
  let zeros := t.takeWhile fun c => c == CodePoint.ofChar '0' || c == CodePoint.ofChar '_'
  let rest := t.drop zeros.length
  let last := zeros.drop (zeros.length - 1)
  if !t.head?.any CodePoint.isDigit then none
  else
    match rest with
    | [] => some last
    | c :: _ => if c.isDigit then some rest else if c = '.' then some (last ++ rest) else none

/-- The text without a point and zeros after it. -/
def dropZeroFraction (t : Text) : Text :=
  match Text.splitAtFirst? '.' t with
  | some (whole, fraction) => if fraction.all (· == CodePoint.ofChar '0') then whole else t
  | none => t

/-- The integer that a text writes; a point with zeros after it may follow. -/
def integerOfText? (t : Text) : Option Int :=
  let trimmed := Text.trimSpace t
  let significant :=
    if trimmed.head? = some '-' then some trimmed else dropZeros? ((Text.dropStart? "+" trimmed).getD trimmed)
  (((significant.map dropZeroFraction).bind dropUnderscores?).filter (·.length ≤ Text.mostDigits)).bind Text.integer?

/-- The number that a text writes, in decimals or as a word; white space around it and underscores in it may not come
together. -/
def realOfText? (t : Text) : Option Binary64 :=
  match Binary64.ofText? (Text.trimSpace t) with
  | some x => some x
  | none => (dropUnderscores? t).bind Binary64.ofText?

def boolOfText? (t : Text) : Option Bool :=
  let word := Text.toLower t
  if word ∈ (["1", "on", "t", "true", "y", "yes"] : List Text) then some true
  else if word ∈ (["0", "off", "f", "false", "n", "no"] : List Text) then some false
  else none

/-- Whether an integer takes up less than 64 bits with its sign. -/
def isWord (n : Int) : Bool :=
  n.natAbs < Nat.pow 2 63

/-- The integer that a value stands for; a number in floating point must be in range. -/
def integer? : Json → Option Int
  | .integer n => some n
  | .real x => x.toInt?.filter isWord
  | .bool b => some (if b then 1 else 0)
  | .string t => integerOfText? t
  | _ => none

/-- The number that a value stands for; an integer must be in range. -/
def real? : Json → Option Binary64
  | .integer n =>
    match Binary64.ofInt n with
    | .infinite _ => none
    | x => some x
  | .real x => some x
  | .bool b => some (.ofInt (if b then 1 else 0))
  | .string t => realOfText? t
  | _ => none

/-- The truth value that a value stands for. -/
def bool? : Json → Option Bool
  | .bool b => some b
  | .integer n => if n = 1 then some true else if n = 0 then some false else none
  | .real x => if x.toInt? = some 1 then some true else if x.toInt? = some 0 then some false else none
  | .string t => boolOfText? t
  | _ => none

end PackageExports.Json
