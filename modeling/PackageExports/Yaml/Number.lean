import PackageExports.Text.Blank
import PackageExports.Text.Digit
import PackageExports.Yaml.Fault

/-!
# Numbers in scalars

A scalar with the tag of a number is read more freely than the plain form of one: without its underscores and one sign,
it may have white space around it, digits of any script, and a second sign.

Main definitions: `Yaml.readInteger`, `Yaml.readReal`.
-/

namespace PackageExports.Yaml

/-- The mark that may stand before digits in a base, in small letters. -/
def baseMark (base : Nat) : Text :=
  if base = 2 then "0b" else if base = 8 then "0o" else if base = 16 then "0x" else []

/-- The number that digits in a base write, and the digits left over. -/
def natInBase (base : Nat) (digits : Text) : Nat :=
  digits.foldl (fun n c => base * n + c.hexValue?.getD 0) 0

/-- The integer that a text writes in a base. -/
def integerIn (base : Nat) (t : Text) : Except Fault Int :=
  let (negative, unsigned) := (Text.trimSpace t.plainDigits).splitSign
  let mark := baseMark base
  let unmarked :=
    if !mark.isEmpty && Text.toLower (unsigned.take 2) = mark then unsigned.drop 2 else unsigned
  let digits := unmarked.takeWhile fun c => c.hexValue?.any (· < base)
  if base = 10 ∧ Text.mostDigits < digits.length then .error (.longInteger digits.length)
  else if digits.isEmpty ∨ digits.length < unmarked.length then .error (.illegibleInteger base t)
  else .ok (if negative then -(natInBase base digits : Int) else natInBase base digits)

def realIn (t : Text) : Except Fault Binary64 :=
  match Binary64.ofText? (Text.trimSpace t.plainDigits) with
  | some x => .ok x
  | none => .error (.illegibleReal t)

/-- The text of a number without underscores, as its sign and the rest; they may not both be empty. -/
def signAndRest (t : Text) : Except Fault (Bool × Text) :=
  let number := t.filter (· != CodePoint.ofChar '_')
  if number.isEmpty then .error .emptyScalar else .ok (Text.splitSign number)

/-- The integer that a scalar writes; a sign alone is as good as an empty scalar. -/
def readInteger (t : Text) : Except Fault Int := do
  let (negative, rest) ← signAndRest t
  if rest.isEmpty then .error .emptyScalar
  let magnitude ←
    match Text.dropStart? "0b" rest, Text.dropStart? "0x" rest with
    | some bits, _ => integerIn 2 bits
    | none, some digits => integerIn 16 digits
    | none, none =>
      if rest.head? = some '0' then integerIn 8 rest
      else do
        let parts ← (Text.splitOn ':' rest).mapM (integerIn 10)
        pure (parts.foldl (fun n part => 60 * n + part) 0)
  return if negative then -magnitude else magnitude

/-- A sum and digits in base sixty, from the one in a given place up. -/
def sumInSixties : (place : Nat) → Binary64 → List Binary64 → Except Fault Binary64
  | _, sum, [] => .ok sum
  | place, sum, digit :: digits =>
    match Binary64.ofInt place with
    | .infinite _ => .error .realTooGreat
    | weight => sumInSixties (60 * place) (sum.add (digit.mul weight)) digits

/-- The number in floating point that a scalar writes. -/
def readReal (t : Text) : Except Fault Binary64 := do
  let (negative, rest) ← signAndRest (Text.toLower t)
  let magnitude ←
    if rest = ".inf" then pure (.infinite false)
    else if rest = ".nan" then pure .nan
    else
      match Text.splitOn ':' rest with
      | [_] => realIn rest
      | parts => do sumInSixties 1 (.zero false) (← parts.mapM realIn).reverse
  return if negative then magnitude.neg else magnitude

end PackageExports.Yaml
