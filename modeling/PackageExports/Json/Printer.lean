import PackageExports.Decimal.Shortest
import PackageExports.Json.Value

/-!
# Writing JSON

Two layouts: `Json.compact` on one line with a space after each comma and colon, and `Json.pretty` with every item on
a line of its own, indented by two spaces a level. Only quotation marks, backslashes and control characters are
escaped. Numbers that are not finite are written as `NaN`, `Infinity` and `-Infinity`.
-/

namespace PackageExports.Json

def hexDigit (n : Nat) : CodePoint :=
  if n < 10 then ⟨48 + n⟩ else ⟨87 + n⟩

/-- A code point inside a quoted string. -/
def quotePoint (c : CodePoint) : Text :=
  if c = '"' then "\\\""
  else if c = '\\' then "\\\\"
  else if c.val = 10 then "\\n"
  else if c.val = 13 then "\\r"
  else if c.val = 9 then "\\t"
  else if c.val = 8 then "\\b"
  else if c.val = 12 then "\\f"
  else if c.val < 32 then "\\u00" ++ [hexDigit (c.val / 16), hexDigit (c.val % 16)]
  else [c]

def quote (t : Text) : Text :=
  '"' :: (t.flatMap quotePoint ++ "\"")

/-- A number, as JSON readers that know the values that are not finite take it. -/
def numberText : Binary64 → Text
  | .nan => "NaN"
  | .infinite negative => if negative then "-Infinity" else "Infinity"
  | x => x.text

/-- A value that is not made of others; nothing for arrays and objects. -/
def scalarText : Json → Text
  | .null => "null"
  | .bool b => if b then "true" else "false"
  | .integer n => Text.ofInt n
  | .real x => numberText x
  | .string t => quote t
  | _ => []

mutual

/-- A value on one line. -/
def compact : Json → Text
  | .array [] => "[]"
  | .array (item :: items) => '[' :: (compact item ++ compactItems items ++ "]")
  | .object [] => "\x7b\x7d"
  | .object (member :: members) => "\x7b" ++ compactMember member ++ compactMembers members ++ "\x7d"
  | value => scalarText value
termination_by structural value => value

def compactItems : List Json → Text
  | [] => []
  | item :: items => ", " ++ compact item ++ compactItems items
termination_by structural items => items

def compactMembers : List (Text × Json) → Text
  | [] => []
  | member :: members => ", " ++ compactMember member ++ compactMembers members
termination_by structural members => members

def compactMember : Text × Json → Text
  | (key, value) => quote key ++ ": " ++ compact value
termination_by structural member => member

end

def lineAt (level : Nat) : Text :=
  '\n' :: List.replicate (2 * level) (CodePoint.ofChar ' ')

mutual

/-- A value over several lines, at a level of nesting. -/
def prettyAt (level : Nat) : Json → Text
  | .array [] => "[]"
  | .array (item :: items) =>
    "[" ++ lineAt (level + 1) ++ prettyAt (level + 1) item ++ prettyItems (level + 1) items ++ lineAt level ++ "]"
  | .object [] => "\x7b\x7d"
  | .object (member :: members) =>
    "\x7b" ++ lineAt (level + 1) ++ prettyMember (level + 1) member ++ prettyMembers (level + 1) members ++
      lineAt level ++ "\x7d"
  | value => scalarText value
termination_by structural value => value

def prettyItems (level : Nat) : List Json → Text
  | [] => []
  | item :: items => "," ++ lineAt level ++ prettyAt level item ++ prettyItems level items
termination_by structural items => items

def prettyMembers (level : Nat) : List (Text × Json) → Text
  | [] => []
  | member :: members => "," ++ lineAt level ++ prettyMember level member ++ prettyMembers level members
termination_by structural members => members

def prettyMember (level : Nat) : Text × Json → Text
  | (key, value) => quote key ++ ": " ++ prettyAt level value
termination_by structural member => member

end

def pretty (value : Json) : Text :=
  prettyAt 0 value

end PackageExports.Json
