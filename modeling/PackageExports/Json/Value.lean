import PackageExports.Decimal.Binary64
import PackageExports.Keyed

/-!
# JSON values

Objects keep the order of their members. Integers are exact; a number written with a point or an exponent is a
binary floating point number, so `1` and `1.0` are different values.

Main definitions: `Json`, `Json.member?`, `Json.text?`.
-/

namespace PackageExports

/-- A JSON value. -/
inductive Json where
  | null
  | bool (value : Bool)
  | integer (value : Int)
  | real (value : Binary64)
  | string (value : Text)
  | array (items : List Json)
  | object (members : List (Text × Json))
deriving Inhabited

namespace Json

abbrev Members :=
  Keyed Text Json

def Members.value? (members : Members) (name : Text) : Option Json :=
  Keyed.get? name members

def member? (key : Text) : Json → Option Json
  | .object members => Keyed.get? key members
  | _ => none

def text? : Json → Option Text
  | .string t => some t
  | _ => none

/-- The text of a string value that is not empty. -/
def nonemptyText? (value : Json) : Option Text :=
  value.text?.filter (!·.isEmpty)

/-- Whether a value is neither null, false, zero nor empty. -/
def isTruthy : Json → Bool
  | .null => false
  | .bool b => b
  | .integer n => n != 0
  | .real x => !x.isZero
  | .string t => !t.isEmpty
  | .array items => !items.isEmpty
  | .object members => !members.isEmpty

end Json

end PackageExports
