import PackageExports.Decimal.Written
import PackageExports.Json.Value

/-!
# JSON tokens

The reader works in two steps, the first of which cuts the text into tokens. An automaton reads one code point after
the other, so what stands between tokens can be changed without regard to what they hold.

A number or a bare word is the longest row of letters, digits, points and signs. An escaped surrogate pair inside a
string is one code point; a surrogate escaped on its own is kept.

Main definitions: `Json.Token`, `Json.Token.scan?`.
-/

namespace PackageExports.Json

/-- A token: punctuation, or a value that is not made of others. -/
inductive Token where
  | openObject
  | closeObject
  | openArray
  | closeArray
  | comma
  | colon
  | scalar (value : Json)
deriving Inhabited

namespace Token

/-- What the automaton is in the middle of. Text read so far is kept last code point first. -/
inductive Scan where
  | between
  | word (read : Text)
  | string (read : Text) (afterHigh : Bool)
  | escape (read : Text) (afterHigh : Bool)
  | unicode (read : Text) (afterHigh : Bool) (digits value : Nat)

def isSpace (c : CodePoint) : Bool :=
  c == ' ' || c == '\t' || c == '\n' || c == '\r'

def isWordPart (c : CodePoint) : Bool :=
  c.isLetter || c.isDigit || c == '+' || c == '-' || c == '.'

/-- The number that a sign and an unsigned decimal write. -/
def decimal? (negative : Bool) (t : Text) : Option Json :=
  let whole := t.takeWhile CodePoint.isDigit
  let rest := t.drop whole.length
  if whole.isEmpty || (whole.head? = some '0' && 1 < whole.length) then none
  else
    let (fraction, power) :=
      match rest with
      | c :: after =>
        if c = '.' then (some (after.takeWhile CodePoint.isDigit), after.dropWhile CodePoint.isDigit) else (none, rest)
      | [] => (none, rest)
    let power? : Option (Option Int) :=
      match power with
      | [] => some none
      | c :: after => if c = 'e' ∨ c = 'E' then (Text.integer? after).map some else none
    match fraction, power? with
    | some [], _ => none
    | _, none => none
    | none, some none => some (.integer (if negative then -(Text.natOfDigits whole : Int) else Text.natOfDigits whole))
    | _, some shift =>
      let places := fraction.getD []
      some (.real (.ofDecimal negative (Text.natOfDigits (whole ++ places)) (shift.getD 0 - places.length)))

def wordValue? (t : Text) : Option Json :=
  if t = "null" then some .null
  else if t = "true" then some (.bool true)
  else if t = "false" then some (.bool false)
  else if t = "NaN" then some (.real .nan)
  else if t = "Infinity" then some (.real (.infinite false))
  else if t = "-Infinity" then some (.real (.infinite true))
  else
    match t with
    | c :: rest => if c = '-' then decimal? true rest else decimal? false t
    | [] => none

def begin? (c : CodePoint) : Option (List Token × Scan) :=
  if isSpace c then some ([], .between)
  else if c = '{' then some ([openObject], .between)
  else if c = '}' then some ([closeObject], .between)
  else if c = '[' then some ([openArray], .between)
  else if c = ']' then some ([closeArray], .between)
  else if c = ',' then some ([comma], .between)
  else if c = ':' then some ([colon], .between)
  else if c = '"' then some ([], .string [] false)
  else if isWordPart c then some ([], .word [c])
  else none

/-- The code point of an escape of one letter. -/
def escaped? (c : CodePoint) : Option CodePoint :=
  if c = '"' ∨ c = '\\' ∨ c = '/' then some c
  else if c = 'b' then some ⟨8⟩
  else if c = 'f' then some ⟨12⟩
  else if c = 'n' then some ⟨10⟩
  else if c = 'r' then some ⟨13⟩
  else if c = 't' then some ⟨9⟩
  else none

/-- The string state after a complete escape of four hexadecimal digits. -/
def afterUnicode (read : Text) (afterHigh : Bool) (c : CodePoint) : Scan :=
  match afterHigh && c.isLowSurrogate, read with
  | true, high :: rest => .string (.ofPair high c :: rest) false
  | _, _ => .string (c :: read) c.isHighSurrogate

/-- Reads one code point: the tokens that it completes, and what the automaton is then in the middle of. -/
def step? : Scan → CodePoint → Option (List Token × Scan)
  | .between, c => begin? c
  | .word read, c =>
    if isWordPart c then some ([], .word (c :: read))
    else
      match wordValue? read.reverse, begin? c with
      | some value, some (tokens, state) => some (scalar value :: tokens, state)
      | _, _ => none
  | .string read afterHigh, c =>
    if c = '"' then some ([scalar (.string read.reverse)], .between)
    else if c = '\\' then some ([], .escape read afterHigh)
    else if c.val < 32 then none
    else some ([], .string (c :: read) false)
  | .escape read afterHigh, c =>
    if c = 'u' then some ([], .unicode read afterHigh 0 0)
    else (escaped? c).map fun e => ([], .string (e :: read) false)
  | .unicode read afterHigh digits value, c =>
    c.hexValue?.map fun d =>
      if digits = 3 then ([], afterUnicode read afterHigh ⟨16 * value + d⟩)
      else ([], .unicode read afterHigh (digits + 1) (16 * value + d))

/-- The tokens of the rest of a text. -/
def scanFrom? : Scan → Text → Option (List Token)
  | .between, [] => some []
  | .word read, [] => (wordValue? read.reverse).map fun value => [scalar value]
  | _, [] => none
  | state, c :: rest =>
    match step? state c with
    | some (tokens, next) => (scanFrom? next rest).map (tokens ++ ·)
    | none => none

/-- The tokens of a text, unless it has a malformed one. -/
def scan? (t : Text) : Option (List Token) :=
  scanFrom? .between t

end Token

end PackageExports.Json
