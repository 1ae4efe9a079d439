import PackageExports.Decimal.Binary64

/-!
# Written numbers

Integers in decimal digits, and numbers in floating point with digits on one side of the point at least, or as the
words for infinity and for no number.

Main definitions: `Text.integer?`, `Binary64.ofText?`.
-/

namespace PackageExports

def Text.splitSign (t : Text) : Bool × Text :=
  match t with
  | c :: rest => if c = '-' then (true, rest) else if c = '+' then (false, rest) else (false, t)
  | [] => (false, t)

/-- How many digits an integer from outside may have; longer ones are refused rather than read slowly. -/
def Text.mostDigits : Nat :=
  4300

/-- The integer that digits after an optional sign write. -/
def Text.integer? (t : Text) : Option Int :=
  let (negative, digits) := t.splitSign
  if digits.isEmpty || !digits.all CodePoint.isDigit then none
  else some (if negative then -(Text.natOfDigits digits : Int) else Text.natOfDigits digits)

namespace Binary64

/-- The number that decimals without a sign write, with a power of ten or without one. -/
def ofDecimals? (negative : Bool) (t : Text) : Option Binary64 :=
  let whole := t.takeWhile CodePoint.isDigit
  let rest := t.drop whole.length
  let (fraction, power) :=
    match rest with
    | c :: after =>
      if c = '.' then (after.takeWhile CodePoint.isDigit, after.dropWhile CodePoint.isDigit) else ([], rest)
    | [] => ([], rest)
  let digits := whole ++ fraction
  let number (shift : Int) : Binary64 :=
    .ofDecimal negative (Text.natOfDigits digits) (shift - fraction.length)
  if digits.isEmpty then none
  else
    match power with
    | [] => some (number 0)
    | c :: after => if c = 'e' ∨ c = 'E' then (Text.integer? after).map number else none

/-- The number that a text writes, in decimals or as a word. -/
def ofText? (t : Text) : Option Binary64 :=
  let (negative, unsigned) := t.splitSign
  let word := Text.toLower unsigned
  if word = "inf" ∨ word = "infinity" then some (.infinite negative)
  else if word = "nan" then some .nan
  else ofDecimals? negative unsigned

end Binary64

end PackageExports
