import PackageExports.Text.Basic

/-!
# Reading YAML text

A cursor is the rest of a text with the place reached in it. The end of the text counts as white space and as the end
of a line.

Main definitions: `Yaml.Cursor`, `Yaml.Cursor.takeBreak`.
-/

namespace PackageExports.Yaml

/-- The rest of a text, with the number of code points, lines and columns before it. -/
structure Cursor where
  rest : Text
  index : Nat := 0
  line : Nat := 0
  column : Nat := 0

def isBreak (c : CodePoint) : Bool :=
  c.val == 10 || c.val == 13 || c.val == 0x85 || c.val == 0x2028 || c.val == 0x2029

def isTabOrSpace (c : CodePoint) : Bool :=
  c.val == 32 || c.val == 9

def isLineEnd : Option CodePoint → Bool
  | some c => isBreak c
  | none => true

def isSpaceOrEnd : Option CodePoint → Bool
  | some c => c == ' ' || isBreak c
  | none => true

def isBlankOrEnd : Option CodePoint → Bool
  | some c => c == ' ' || c == '\t' || isBreak c
  | none => true

/-- The code points of names and directives. -/
def isNamePart (c : CodePoint) : Bool :=
  c.isDigit || c.isLetter || c == '-' || c == '_'

namespace Cursor

def peek (c : Cursor) (distance : Nat) : Option CodePoint :=
  c.rest[distance]?

def head (c : Cursor) : Option CodePoint :=
  c.rest.head?

def next (c : Cursor) : Cursor :=
  match c.rest with
  | [] => c
  | x :: rest =>
    if isBreak x ∧ ¬(x.val = 13 ∧ rest.head? = some ⟨10⟩) then ⟨rest, c.index + 1, c.line + 1, 0⟩
    else ⟨rest, c.index + 1, c.line, if x.val = 0xFEFF then c.column else c.column + 1⟩

def advance : Nat → Cursor → Cursor
  | 0, c => c
  | n + 1, c => advance n c.next

def run (c : Cursor) (p : CodePoint → Bool) : Text :=
  c.rest.takeWhile p

def skip (c : Cursor) (p : CodePoint → Bool) : Cursor :=
  advance (c.run p).length c

def skipSpaces (c : Cursor) : Cursor :=
  c.skip (· == CodePoint.ofChar ' ')

/-- The cursor after at most so many spaces that a column is reached. -/
def skipSpacesTo (c : Cursor) (column : Nat) : Cursor :=
  advance (min (column - c.column) (c.run (· == CodePoint.ofChar ' ')).length) c

def skipComment (c : Cursor) : Cursor :=
  if c.head = some '#' then c.skip (!isBreak ·) else c

/-- The line end at the cursor, as it is read, and the cursor after it. Only the two separators are kept as they
are. -/
def takeBreak (c : Cursor) : Text × Cursor :=
  match c.head with
  | some x =>
    if x.val = 13 ∧ c.peek 1 = some ⟨10⟩ then ("\n", advance 2 c)
    else if x.val = 0x2028 ∨ x.val = 0x2029 then ([x], c.next)
    else if isBreak x then ("\n", c.next)
    else ([], c)
  | none => ([], c)

/-- Whether one of the marks between documents stands at the cursor. -/
def atMark (c : Cursor) (mark : Text) : Bool :=
  Text.startsWith c.rest mark && isBlankOrEnd (c.peek 3)

/-- Whether a document starts or ends at the cursor. -/
def atDocumentMark (c : Cursor) : Bool :=
  c.atMark "---" || c.atMark "..."

end Cursor

end PackageExports.Yaml
