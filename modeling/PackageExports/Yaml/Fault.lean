import PackageExports.Decimal.Written
import PackageExports.Text.Quoted

/-!
# Faults of YAML texts

Why a text gives no value: it is not YAML that can be read safely, or a scalar does not write what its tag says.

Main definitions: `Yaml.Fault`, `Yaml.Fault.message`.
-/

namespace PackageExports.Yaml

/-- A part of a moment that is out of range. -/
inductive MomentPart where
  | year (n : Nat)
  | month
  | day
  | hour
  | minute
  | second
  | offset (minutes : Int)
deriving DecidableEq

/-- Why a text gives no value. -/
inductive Fault where
  | malformed
  /-- An escape beyond the last code point, in less than 32 bits with the sign. -/
  | beyondCodePoints
  | beyondWords
  | illegibleInteger (base : Nat) (text : Text)
  | longInteger (digits : Nat)
  | illegibleReal (text : Text)
  | realTooGreat
  | unknownWord (word : Text)
  | emptyScalar
  /-- A text that has not the form of a moment. -/
  | shapelessMoment
  | momentOfMapping
  | noSuchMoment (part : MomentPart)
  /-- Collections too deep inside each other, or a mapping that is its own default. -/
  | tooDeep
deriving DecidableEq

/-- A span of minutes, in days and seconds. -/
def spanText (minutes : Int) : Text :=
  let days := minutes.fdiv 1440
  let seconds := 60 * minutes.fmod 1440
  let part (name : Text) (n : Int) : List Text := if n = 0 then [] else [name ++ "=" ++ Text.ofInt n]
  "datetime.timedelta(" ++ Text.joinWith ", " (part "days" days ++ part "seconds" seconds) ++ ")"

def MomentPart.message : MomentPart → Text
  | .year n => "year " ++ Text.ofNat n ++ " is out of range"
  | .month => "month must be in 1..12"
  | .day => "day is out of range for month"
  | .hour => "hour must be in 0..23"
  | .minute => "minute must be in 0..59"
  | .second => "second must be in 0..59"
  | .offset minutes =>
    "offset must be a timedelta strictly between -timedelta(hours=24) and timedelta(hours=24), not " ++
      spanText minutes ++ "."

def Fault.message : Fault → Text
  | .malformed => "not valid YAML"
  | .beyondCodePoints => "chr() arg not in range(0x110000)"
  | .beyondWords => "Python int too large to convert to C int"
  | .illegibleInteger base text =>
    "invalid literal for int() with base " ++ Text.ofNat base ++ ": " ++ text.quoted.take 200
  | .longInteger digits =>
    "Exceeds the limit (" ++ Text.ofNat Text.mostDigits ++ " digits) for integer string conversion: value has " ++
      Text.ofNat digits ++ " digits; use sys.set_int_max_str_digits() to increase the limit"
  | .illegibleReal text => "could not convert string to float: " ++ text.quoted
  | .realTooGreat => "int too large to convert to float"
  | .unknownWord word => word.quoted
  | .emptyScalar => "string index out of range"
  | .shapelessMoment => "'NoneType' object has no attribute 'groupdict'"
  | .momentOfMapping => "expected string or bytes-like object, got 'list'"
  | .noSuchMoment part => part.message
  | .tooDeep => "maximum recursion depth exceeded"

end PackageExports.Yaml
