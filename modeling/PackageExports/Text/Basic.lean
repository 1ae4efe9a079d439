/-!
# Text as a list of code points

Names, paths and file contents are lists of Unicode code points. Lone surrogates are code points here, because an
escape in a JSON string may name one; `Text.Utf8` says where they can be written out.

Main definitions: `CodePoint`, `Text`, cutting (`Text.splitOn`, `Text.splitAtLast?`), joining (`Text.joinWith`) and
the order by code point (`Text.le`, `Text.sort`).
-/

namespace PackageExports

/-- A Unicode code point, surrogates included. -/
structure CodePoint where
  val : Nat
deriving DecidableEq, Inhabited

namespace CodePoint

def ofChar (c : Char) : CodePoint :=
  ⟨c.toNat⟩

instance : Coe Char CodePoint :=
  ⟨ofChar⟩

def isDigit (c : CodePoint) : Bool :=
  48 ≤ c.val && c.val ≤ 57

def isLower (c : CodePoint) : Bool :=
  97 ≤ c.val && c.val ≤ 122

def isUpper (c : CodePoint) : Bool :=
  65 ≤ c.val && c.val ≤ 90

def isLetter (c : CodePoint) : Bool :=
  c.isLower || c.isUpper

def digitValue (c : CodePoint) : Nat :=
  c.val - 48

def hexValue? (c : CodePoint) : Option Nat :=
  if c.isDigit then some c.digitValue
  else if 97 ≤ c.val && c.val ≤ 102 then some (c.val - 87)
  else if 65 ≤ c.val && c.val ≤ 70 then some (c.val - 55)
  else none

/-- The ASCII capitals in lower case, everything else unchanged. -/
def toLower (c : CodePoint) : CodePoint :=
  if c.isUpper then ⟨c.val + 32⟩ else c

def isHighSurrogate (c : CodePoint) : Bool :=
  0xD800 ≤ c.val && c.val ≤ 0xDBFF

def isLowSurrogate (c : CodePoint) : Bool :=
  0xDC00 ≤ c.val && c.val ≤ 0xDFFF

/-- The code points that no encoding form may hold on their own. -/
def isSurrogate (c : CodePoint) : Bool :=
  c.isHighSurrogate || c.isLowSurrogate

/-- The code point that a surrogate pair stands for. -/
def ofPair (high low : CodePoint) : CodePoint :=
  ⟨0x10000 + (high.val - 0xD800) * 0x400 + (low.val - 0xDC00)⟩

end CodePoint

/-- A text is a list of code points. -/
abbrev Text := List CodePoint

namespace Text

def ofString (s : String) : Text :=
  s.toList.map CodePoint.ofChar

instance : Coe String Text :=
  ⟨ofString⟩

instance : LawfulBEq Text :=
  inferInstance

/-- The string of a text, with a question mark for each lone surrogate. -/
def toString (t : Text) : String :=
  String.ofList (t.map fun c => if c.isSurrogate then '?' else Char.ofNat c.val)

def ofNat (n : Nat) : Text :=
  (Nat.toDigits 10 n).map CodePoint.ofChar

def ofInt : Int → Text
  | .ofNat n => ofNat n
  | .negSucc n => '-' :: ofNat (n + 1)

def natOfDigits (t : Text) : Nat :=
  t.foldl (fun n c => 10 * n + c.digitValue) 0

def toLower (t : Text) : Text :=
  t.map CodePoint.toLower

def startsWith (t head : Text) : Bool :=
  head.isPrefixOf t

def endsWith (t tail : Text) : Bool :=
  tail.isSuffixOf t

def endsWithAny (t : Text) (tails : List Text) : Bool :=
  tails.any (endsWith t)

/-- What follows `head` in `t`, if `t` starts with it. -/
def dropStart? : (head t : Text) → Option Text
  | [], t => some t
  | _ :: _, [] => none
  | h :: hs, c :: cs => if h = c then dropStart? hs cs else none

/-- What precedes `tail` in `t`, if `t` ends with it. -/
def dropEnd? (tail t : Text) : Option Text :=
  if tail.isSuffixOf t then some (t.take (t.length - tail.length)) else none

/-- `t` without any occurrences of `c` at its end. -/
def trimEnd (c : CodePoint) (t : Text) : Text :=
  (t.reverse.dropWhile (· == c)).reverse

/-- How many times `c` stands at the start of a text. -/
def leading (c : CodePoint) (t : Text) : Nat :=
  (t.takeWhile (· == c)).length

/-- The pieces of a text between the occurrences of `c`; there is one more piece than there are occurrences. -/
def splitOn (c : CodePoint) : Text → List Text
  | [] => [[]]
  | x :: xs =>
    if x = c then [] :: splitOn c xs
    else
      match splitOn c xs with
      | [] => [[x]]
      | piece :: pieces => (x :: piece) :: pieces

/-- The parts before and after the first `c`. -/
def splitAtFirst? (c : CodePoint) : Text → Option (Text × Text)
  | [] => none
  | x :: xs => if x = c then some ([], xs) else (splitAtFirst? c xs).map fun (a, b) => (x :: a, b)

/-- The parts before and after the last `c`. -/
def splitAtLast? (c : CodePoint) : Text → Option (Text × Text)
  | [] => none
  | x :: xs =>
    match splitAtLast? c xs with
    | some (a, b) => some (x :: a, b)
    | none => if x = c then some ([], xs) else none

/-- The pieces one after the other with `separator` between them. -/
def joinWith (separator : Text) : List Text → Text
  | [] => []
  | [piece] => piece
  | piece :: pieces => piece ++ separator ++ joinWith separator pieces

/-- The text with its first occurrence of `old` replaced, if there is one. -/
def replaceFirst? (old new : Text) : Text → Option Text
  | [] => if old.isEmpty then some new else none
  | t@(c :: rest) =>
    match dropStart? old t with
    | some after => some (new ++ after)
    | none => (replaceFirst? old new rest).map (c :: ·)

/-- The order of texts by their first differing code point, a shorter text before its continuations. -/
def le : Text → Text → Bool
  | [], _ => true
  | _ :: _, [] => false
  | a :: as, b :: bs => a.val < b.val || (a.val == b.val && le as bs)

def sort (ts : List Text) : List Text :=
  ts.mergeSort le

/-- The list without its later repetitions. -/
def dedup (ts : List Text) : List Text :=
  ts.foldl (fun kept t => if kept.contains t then kept else kept ++ [t]) []

end Text

end PackageExports
