import PackageExports.Yaml.Moment

/-!
# What plain scalars mean

A plain scalar without a tag is a null, a truth value, a number, a moment or a mark for merging if it has the form of
one, else a string. Numbers may be written with underscores, in bases two, eight and sixteen, and in base sixty with
colons; a floating point number has a point, and a sign in its exponent. One line end after a form does no harm.

Main definitions: `Yaml.Tag`, `Yaml.Tag.ofText`, `Yaml.Tag.ofPlain`.
-/

namespace PackageExports.Yaml

/-- The tags that values are built by. -/
inductive Tag where
  | null
  | bool
  | int
  | float
  | binary
  | timestamp
  | pairs
  | set
  | str
  | seq
  | map
  | merge
  | value
  | other
deriving DecidableEq

/-- The tag that a full tag text names. -/
def Tag.ofText (t : Text) : Tag :=
  let known : List (Text × Tag) :=
    [("null", .null), ("bool", .bool), ("int", .int), ("float", .float), ("binary", .binary),
      ("timestamp", .timestamp), ("omap", .pairs), ("pairs", .pairs), ("set", .set), ("str", .str), ("seq", .seq),
      ("map", .map), ("merge", .merge), ("value", .value)]
  match Text.dropStart? "tag:yaml.org,2002:" t with
  | some name => ((known.find? fun (n, _) => n = name).map Prod.snd).getD .other
  | none => .other

/-- The words for truth values, in small letters. -/
def boolOfWord? (t : Text) : Option Bool :=
  if t ∈ (["yes", "true", "on"] : List Text) then some true
  else if t ∈ (["no", "false", "off"] : List Text) then some false
  else none

/-- Whether a word is written in small letters, in capitals, or with a capital first. -/
def isPlainCase (t : Text) : Bool :=
  t.all CodePoint.isLower || t.all CodePoint.isUpper ||
    (t.head?.any CodePoint.isUpper && t.tail.all CodePoint.isLower)

def unsigned (t : Text) : Text :=
  t.splitSign.2

/-- A row of at least one code point that satisfies a condition. -/
def isRow (p : CodePoint → Bool) (t : Text) : Bool :=
  !t.isEmpty && t.all p

/-- Digits and underscores. -/
def isDigitOrUnderscore (c : CodePoint) : Bool :=
  c.isDigit || c == '_'

/-- Digits and underscores of which the first is a digit. -/
def isDigits (t : Text) : Bool :=
  t.head?.any CodePoint.isDigit && t.all isDigitOrUnderscore

/-- The later parts of a number in base sixty: below sixty, with at most two digits. -/
def isSixtieth (t : Text) : Bool :=
  isRow CodePoint.isDigit t && t.length ≤ 2 && Text.natOfDigits t < 60

def isInteger (t : Text) : Bool :=
  let u := unsigned t
  let nonzero (t : Text) : Bool := isDigits t && t.head? ≠ some '0'
  u = "0" || nonzero u ||
    (match Text.dropStart? "0b" u with
      | some bits => isRow (fun c => c == '0' || c == '1' || c == '_') bits
      | none => false) ||
    (match Text.dropStart? "0x" u with
      | some digits => isRow (fun c => c.hexValue?.isSome || c == '_') digits
      | none => false) ||
    (match Text.dropStart? "0" u with
      | some digits => isRow (fun c => (c.isDigit && c.digitValue < 8) || c == '_') digits
      | none => false) ||
    (match Text.splitOn ':' u with
      | first :: second :: rest => nonzero first && (second :: rest).all isSixtieth
      | _ => false)

/-- An exponent with a sign, or nothing. -/
def isExponent (t : Text) : Bool :=
  match t with
  | [] => true
  | e :: sign :: digits => (e == 'e' || e == 'E') && (sign == '-' || sign == '+') && isRow CodePoint.isDigit digits
  | _ => false

def isReal (t : Text) : Bool :=
  let u := unsigned t
  u ∈ ([".inf", ".Inf", ".INF"] : List Text) || t ∈ ([".nan", ".NaN", ".NAN"] : List Text) ||
    match Text.splitAtFirst? '.' u with
    | some (whole, after) =>
      let places := after.takeWhile isDigitOrUnderscore
      let exponent := after.drop places.length
      (isDigits whole && isExponent exponent) ||
        (whole.isEmpty && t = u && isDigits places && isExponent exponent) ||
        (match Text.splitOn ':' whole with
          | first :: second :: rest => isDigits first && (second :: rest).all isSixtieth && exponent.isEmpty
          | _ => false)
    | none => false

/-- The text without one line end after it. -/
def dropLineEnd (t : Text) : Text :=
  (Text.dropEnd? "\n" t).getD t

/-- The tag of the form that a text has. -/
def Tag.ofForm (t : Text) : Tag :=
  if t ∈ (["", "~", "null", "Null", "NULL"] : List Text) then .null
  else if isPlainCase t ∧ (boolOfWord? (Text.toLower t)).isSome then .bool
  else if isReal t then .float
  else if isInteger t then .int
  else if t = "<<" then .merge
  else if t = "=" then .value
  else if t ∈ (["!", "&", "*"] : List Text) then .other
  else if Moment.isPlain t then .timestamp
  else .str

/-- The tag of a plain scalar. A line end alone is a string. -/
def Tag.ofPlain (t : Text) : Tag :=
  if t = "\n" then .str else .ofForm (dropLineEnd t)

end PackageExports.Yaml
