import PackageExports.Decimal.Shortest
import PackageExports.Json.Printer
import PackageExports.Text.Quoted

/-!
# Values as labels

How a value is named in a report: a string by itself, and other values in a notation in which strings are quoted.

Main definitions: `Json.label`.
-/

namespace PackageExports.Json

mutual

/-- The notation of a value. -/
def labelWithin : Json → Text
  | .null => "None"
  | .bool b => if b then "True" else "False"
  | .integer n => Text.ofInt n
  | .real x => x.text
  | .string t => Text.quoted t
  | .array items => "[" ++ Text.joinWith ", " (labelItems items) ++ "]"
  | .object members => "\x7b" ++ Text.joinWith ", " (labelMembers members) ++ "\x7d"
termination_by structural value => value

def labelItems : List Json → List Text
  | [] => []
  | item :: items => item.labelWithin :: labelItems items
termination_by structural items => items

def labelMembers : List (Text × Json) → List Text
  | [] => []
  | member :: members => labelMember member :: labelMembers members
termination_by structural members => members

def labelMember : Text × Json → Text
  | (name, value) => Text.quoted name ++ ": " ++ value.labelWithin
termination_by structural member => member

end

/-- The name of a value in a report. -/
def label : Json → Text
  | .string t => t
  | value => value.labelWithin

end PackageExports.Json
