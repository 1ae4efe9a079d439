import PackageExports.Grammar.Tree
import PackageExports.Script.Token

/-!
# How tokens are written

How far each token reaches at the start of a text. Where several tokens are possible, the one of the highest priority is
found, and of those the longest one; a mark is preferred to another token of its length, and so is a token that must
follow what stands before it directly. A word is a keyword where that keyword is possible, and otherwise a name.

Main definitions: `Token.lengthIn`, `lexeme?`.
-/

namespace PackageExports.Script

open Grammar (Lexeme Place TokenSet)

namespace Written

def isSpace (c : CodePoint) : Bool :=
  (9 ≤ c.val && c.val ≤ 13) || c.val == 32 || c.val == 0xA0 || c.val == 0x1680 ||
    (0x2000 ≤ c.val && c.val ≤ 0x200B) || c.val == 0x2028 || c.val == 0x2029 || c.val == 0x202F || c.val == 0x205F ||
    c.val == 0x2060 || c.val == 0x3000 || c.val == 0xFEFF

def isLineEnd (c : CodePoint) : Bool :=
  c.val == 10 || c.val == 13 || c.val == 0x2028 || c.val == 0x2029

/-- The marks that no word holds. -/
def marks : Text :=
  ":;\x60\"'@#.,|^&<=>+-*/\\%?!~()[]\x7b\x7d"

def isWordPart (c : CodePoint) : Bool :=
  31 < c.val && !isSpace c && !marks.contains c

def isHexadecimal (c : CodePoint) : Bool :=
  c.hexValue?.isSome

/-- How many code points at the start of a text satisfy a condition. -/
def countWhile (f : CodePoint → Bool) (t : Text) : Nat :=
  (t.takeWhile f).length

/-- How far a row of units at the start of a text reaches: `unit` gives the length of the unit at the start of a text,
or zero. The first `inside` code points belong to a unit. -/
def reach (unit : Text → Nat) : (inside : Nat) → Text → Nat
  | _, [] => 0
  | inside + 1, _ :: rest => reach unit inside rest + 1
  | 0, c :: rest =>
    match unit (c :: rest) with
    | 0 => 0
    | n + 1 => reach unit n rest + 1

/-- A length if it is followed by some text, this included. -/
def closedBy (closer t : Text) (length : Nat) : Nat :=
  if Text.startsWith (t.drop length) closer then length + closer.length else 0

/-- The number of a code point after a backslash: four hexadecimal digits, or any number of them in brackets. -/
def codePointEscape (t : Text) : Nat :=
  match t with
  | b :: u :: rest =>
    if b = '\\' ∧ u = 'u' then
      let digits := countWhile isHexadecimal rest
      if Text.startsWith rest "\x7b" then
        let digits := countWhile isHexadecimal (rest.drop 1)
        if digits = 0 then 0 else closedBy "\x7d" t (digits + 3)
      else if 4 ≤ digits then 6
      else 0
    else 0
  | _ => 0

/-- A code point of a word, which may be escaped. -/
def wordUnit (t : Text) : Nat :=
  match t with
  | c :: _ => if c = '\\' then codePointEscape t else if isWordPart c then 1 else 0
  | [] => 0

def word (t : Text) : Nat :=
  if t.head?.any CodePoint.isDigit then 0 else reach wordUnit 0 t

/-- A word after a number sign. -/
def privateWord : Text → Nat
  | c :: rest =>
    let n := word rest
    if c = '#' ∧ 0 < n then n + 1 else 0
  | [] => 0

/-- A first line after a number sign and an exclamation mark. -/
def hashbang (t : Text) : Nat :=
  if Text.startsWith t "#!" then countWhile (fun (c : CodePoint) => c != '\n') t else 0

/-- A comment up to the end of the line, or up to its closing mark. -/
def comment (t : Text) : Nat :=
  if Text.startsWith t "//" then countWhile (!isLineEnd ·) t
  else if Text.startsWith t "/*" then
    closedBy "*/" t (reach (fun rest => if Text.startsWith rest "*/" then 0 else 1) 2 t)
  else 0

/-- What stands in a string up to its quotation mark, a backslash or the end of the line. -/
def stringText (quote : CodePoint) (t : Text) : Nat :=
  countWhile (fun (c : CodePoint) => c != quote && c != '\\' && c != '\r' && c != '\n') t

def isOctal (c : CodePoint) : Bool :=
  48 ≤ c.val && c.val ≤ 55

def escape (t : Text) : Nat :=
  match t with
  | b :: c :: rest =>
    let endsLine := rest.head?.any fun (d : CodePoint) => isLineEnd d && d != '\r'
    if b ≠ '\\' then 0
    else if (c = '\r' ∨ c = '?') ∧ endsLine then 3
    else if isOctal c then 2 + min 2 (countWhile isOctal rest)
    else if c = 'x' then if 2 ≤ countWhile isHexadecimal rest then 4 else 0
    else if c = 'u' then codePointEscape t
    else 2
  | _ => 0

/-- Something after a backslash. -/
def escapedUnit (rest : Text) : Nat :=
  match rest with
  | c :: _ => if c = '\n' then 0 else 2
  | [] => 0

/-- A code point or an escaped one of a class in a regular expression. -/
def classUnit : Text → Nat
  | c :: rest => if c = ']' ∨ c = '\n' then 0 else if c = '\\' then escapedUnit rest else 1
  | [] => 0

/-- A code point, an escaped one or a class in a regular expression. -/
def patternUnit (t : Text) : Nat :=
  match t with
  | c :: rest =>
    if c = '\n' ∨ c = '/' then 0
    else if c = '\\' then escapedUnit rest
    else if c = '[' then closedBy "]" t (reach classUnit 1 t)
    else 1
  | [] => 0

/-- A digit, or an underscore before a digit. -/
def digitUnit (f : CodePoint → Bool) : Text → Nat
  | c :: rest => if f c then 1 else if c = '_' ∧ rest.head?.any f then 2 else 0
  | [] => 0

def digits (f : CodePoint → Bool) (t : Text) : Nat :=
  if t.head?.any f then reach (digitUnit f) 0 t else 0

/-- A length with the mark of a big integer, if that follows. -/
def withBigMark (t : Text) (length : Nat) : Nat :=
  if Text.startsWith (t.drop length) "n" then length + 1 else length

/-- A number to the base sixteen, eight or two. -/
def radixNumber : Text → Nat
  | z :: x :: rest =>
    let n :=
      if x = 'x' ∨ x = 'X' then digits isHexadecimal rest
      else if x = 'o' ∨ x = 'O' then digits isOctal rest
      else if x = 'b' ∨ x = 'B' then digits (fun (c : CodePoint) => c = '0' ∨ c = '1') rest
      else 0
    if z = '0' ∧ 0 < n then withBigMark (z :: x :: rest) (n + 2) else 0
  | _ => 0

def exponent : Text → Nat
  | e :: rest =>
    let sign := if Text.startsWith rest "+" || Text.startsWith rest "-" then 1 else 0
    let n := digits CodePoint.isDigit (rest.drop sign)
    if (e = 'e' ∨ e = 'E') ∧ 0 < n then n + sign + 1 else 0
  | [] => 0

def fraction (t : Text) : Nat :=
  if Text.startsWith t "." then 1 + digits CodePoint.isDigit (t.drop 1) else 0

/-- A fraction and an exponent after the integral part of a number. -/
def afterInteger (t : Text) (length : Nat) : Nat :=
  let n := length + fraction (t.drop length)
  max (n + exponent (t.drop n)) (length + exponent (t.drop length))

/-- A decimal number. After a zero at its start there are no digits before a fraction or an exponent, unless the next
one is no zero. -/
def decimalNumber (t : Text) : Nat :=
  let n := digits CodePoint.isDigit t
  if n = 0 then
    let f := fraction t
    if 1 < f then f + exponent (t.drop f) else 0
  else
    let isOneToNine (c : CodePoint) : Bool := c.isDigit && c != '0'
    let whole := if Text.startsWith t "0" ∧ !(t.drop 1).head?.any isOneToNine then 0 else afterInteger t n
    let afterZero := if Text.startsWith t "0" then afterInteger t 1 else 0
    max (withBigMark t n) (max whole afterZero)

def number (t : Text) : Nat :=
  max (radixNumber t) (decimalNumber t)

/-- A word of an element with a hyphen in it. -/
def hyphenatedWord (t : Text) : Nat :=
  let isStart (c : CodePoint) : Bool := c.isLetter || c == '_' || c == '$'
  let isPart (c : CodePoint) : Bool := isStart c || c.isDigit
  let n := countWhile isPart t
  if t.head?.any isStart ∧ Text.startsWith (t.drop n) "-" then
    n + countWhile (fun c => isPart c || c == '-') (t.drop n)
  else 0

/-- Some digits or letters, no more than a number of them, and a semicolon. -/
def referenceName (f : CodePoint → Bool) (most : Nat) (t : Text) : Nat :=
  let n := countWhile f t
  if 0 < n ∧ n ≤ most then closedBy ";" t n else 0

/-- A reference to a code point by its number or its name. -/
def characterReference (t : Text) : Nat :=
  let after (head : Text) (n : Nat) : Nat := if n = 0 then 0 else head.length + n
  if Text.startsWith t "&#x" || Text.startsWith t "&#X" then after "&#x" (referenceName isHexadecimal 6 (t.drop 3))
  else if Text.startsWith t "&#" then after "&#" (referenceName CodePoint.isDigit 5 (t.drop 2))
  else if Text.startsWith t "&" then after "&" (referenceName CodePoint.isLetter 30 (t.drop 1))
  else 0

/-- A code point in an attribute; an ampersand that may start a reference is none. -/
def attributeUnit (quote : CodePoint) : Text → Nat
  | c :: rest =>
    if c = quote then 0
    else if c = '&' then
      match rest with
      | d :: _ => if d = '#' ∨ d.isLetter then 0 else 2
      | [] => 0
    else 1
  | [] => 0

end Written

namespace Token

open Script.Written

/-- How far a token reaches at the start of a text; zero if it does not stand there. What is implied by the text around
it is not among these tokens, and neither are keywords, which are words. -/
def lengthIn (t : Token) (text : Text) : Nat :=
  match t with
  | written s => if Text.startsWith text s then s.length else 0
  | patternEnd => if Text.startsWith text "/" then 1 else 0
  | hashbang => Written.hashbang text
  | word => Written.word text
  | privateWord => Written.privateWord text
  | number => Written.number text
  | comment => Written.comment text
  | doubleQuotedText => stringText '"' text
  | singleQuotedText => stringText '\'' text
  | escape => Written.escape text
  | patternBody => reach patternUnit 0 text
  | patternFlags => countWhile CodePoint.isLower text
  | hyphenatedWord => Written.hyphenatedWord text
  | characterReference => Written.characterReference text
  | doubleQuotedAttribute => reach (attributeUnit '"') 0 text
  | singleQuotedAttribute => reach (attributeUnit '\'') 0 text
  | _ => 0

/-- Whether a token must follow what stands before it directly. -/
def isImmediate : Token → Bool
  | doubleQuotedText | singleQuotedText | escape | patternEnd | patternBody | patternFlags | doubleQuotedAttribute
  | singleQuotedAttribute => true
  | _ => false

/-- The priority of a token. -/
def priority : Token → Int
  | doubleQuotedText | singleQuotedText | patternEnd | doubleQuotedAttribute | singleQuotedAttribute => 1
  | patternBody => -1
  | _ => 0

/-- What decides between tokens of equal priority and length. -/
def weight (t : Token) : Nat :=
  (if t matches written _ | patternEnd then 2 else 0) + if t.isImmediate then 1 else 0

/-- Whether a token is looked for by a reading that got lost. -/
def isLandmark : Token → Bool
  | doubleQuotedText | singleQuotedText | patternBody | doubleQuotedAttribute | singleQuotedAttribute => false
  | _ => true

end Token

/-- A token that may stand at a place. -/
structure Candidate where
  index : Nat
  token : Token
  length : Nat

namespace Candidate

/-- Whether a candidate is preferred to another one. White space is passed over only before tokens that are not
immediate; if there is some, an immediate token comes first. -/
def isPreferred (afterSpace : Bool) (a b : Candidate) : Bool :=
  let s := a.token
  let t := b.token
  if s.priority ≠ t.priority then t.priority < s.priority
  else if afterSpace ∧ s.isImmediate ≠ t.isImmediate then s.isImmediate
  else if a.length ≠ b.length then b.length < a.length
  else if s.weight ≠ t.weight then t.weight < s.weight
  else a.index < b.index

end Candidate

/-- The tokens, keywords aside, with their places among all. -/
def wordlessTokens : List (Token × Nat) :=
  Token.all.zipIdx.filter fun (t, _) => !t.isKeyword

def keywords : List (Text × Nat) :=
  Token.all.zipIdx.filterMap fun (t, i) =>
    match t with
    | .written s => if t.isKeyword then some (s, i) else none
    | _ => none

def wordIndex : Nat :=
  Token.word.index

def words : TokenSet :=
  keywords.foldl (fun s (_, i) => s.union (.single i)) (.single wordIndex)

/-- The token at a place, among those that are possible there. -/
def lexeme? (possible : TokenSet) (place : Place) : Option Lexeme :=
  let start := place.skip Written.isSpace
  let afterSpace := place.offset < start.offset
  let candidate? (t : Token) (i : Nat) : Option Candidate :=
    if if i = wordIndex then possible.meets words else possible.has i then
      match t.lengthIn (if t.isImmediate then place.rest else start.rest) with
      | 0 => none
      | n + 1 => some ⟨i, t, n + 1⟩
    else none
  let better (best : Option Candidate) (entry : Token × Nat) : Option Candidate :=
    match candidate? entry.1 entry.2, best with
    | some c, some b => if c.isPreferred afterSpace b then some c else best
    | c, none => c
    | none, _ => best
  match wordlessTokens.foldl better none with
  | some c =>
    let start := if c.token.isImmediate then place else start
    let stop := start.advance c.length
    if c.index = wordIndex then
      match keywords.find? (·.1 == start.textTo stop) with
      | some (_, k) => some ⟨if possible.has k then k else c.index, start, stop, true⟩
      | none => some ⟨c.index, start, stop, false⟩
    else some ⟨c.index, start, stop, false⟩
  | none => if start.rest.isEmpty then some ⟨0, start, start, false⟩ else none

end PackageExports.Script
