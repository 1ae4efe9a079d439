import PackageExports.Json.Token

/-!
# Reading JSON

The second step of the reader folds the tokens over a stack of unfinished arrays and objects. The last of several
values under one name stays, at the place of the first.

Main definitions: `Json.ofTokens?`, `Json.parse`, `Json.parse?`.
-/

namespace PackageExports.Json

/-- An unfinished array or object, its parts last first. -/
inductive Frame where
  | array (items : List Json)
  | object (members : List (Text × Json))
  | member (members : List (Text × Json)) (key : Text)

/-- What may come next inside the innermost frame. -/
inductive Demand where
  | value
  | valueOrClose
  | key
  | keyOrClose
  | colon
  | separator

/-- The reader between two tokens. -/
inductive Progress where
  | within (demand : Demand) (frames : List Frame)
  | complete (value : Json)

/-- Puts a finished value into the innermost frame. -/
def deliver (value : Json) : List Frame → Progress
  | .array items :: frames => .within .separator (.array (value :: items) :: frames)
  | .member members key :: frames => .within .separator (.object ((key, value) :: members) :: frames)
  | _ => .complete value

/-- A token where a value may begin. -/
def beginValue? (frames : List Frame) : Token → Option Progress
  | .openArray => some (.within .valueOrClose (.array [] :: frames))
  | .openObject => some (.within .keyOrClose (.object [] :: frames))
  | .scalar value => some (deliver value frames)
  | _ => none

/-- A token where a name must come. -/
def beginMember? : List Frame → Token → Option Progress
  | .object members :: frames, .scalar (.string key) => some (.within .colon (.member members key :: frames))
  | _, _ => none

def read? : Progress → Token → Option Progress
  | .within .value frames, t => beginValue? frames t
  | .within .valueOrClose (.array _ :: frames), .closeArray => some (deliver (.array []) frames)
  | .within .valueOrClose frames, t => beginValue? frames t
  | .within .keyOrClose (.object _ :: frames), .closeObject => some (deliver (.object []) frames)
  | .within .keyOrClose frames, t => beginMember? frames t
  | .within .key frames, t => beginMember? frames t
  | .within .colon frames, .colon => some (.within .value frames)
  | .within .separator (.array items :: frames), .comma => some (.within .value (.array items :: frames))
  | .within .separator (.array items :: frames), .closeArray => some (deliver (.array items.reverse) frames)
  | .within .separator (.object members :: frames), .comma => some (.within .key (.object members :: frames))
  | .within .separator (.object members :: frames), .closeObject =>
    some (deliver (.object (Keyed.ofPairs members.reverse)) frames)
  | _, _ => none

/-- The value that tokens write from a given point on. -/
def readFrom? : Progress → List Token → Option Json
  | .complete value, [] => some value
  | _, [] => none
  | progress, t :: rest =>
    match read? progress t with
    | some next => readFrom? next rest
    | none => none

def ofTokens? (tokens : List Token) : Option Json :=
  readFrom? (.within .value []) tokens

/-- Why a text is refused. -/
inductive Refusal where
  | malformed
  | longInteger
deriving DecidableEq

/-- Whether a token is an integer of too many digits. -/
def Token.isLongInteger : Token → Bool
  | .scalar (.integer n) => Nat.pow 10 Text.mostDigits ≤ n.natAbs
  | _ => false

/-- The value that a text writes, if it is JSON. -/
def parse (t : Text) : Except Refusal Json :=
  match Token.scan? t with
  | none => .error .malformed
  | some tokens =>
    match ofTokens? tokens with
    | none => .error .malformed
    | some value => if tokens.any Token.isLongInteger then .error .longInteger else .ok value

def parse? (t : Text) : Option Json :=
  (parse t).toOption

end PackageExports.Json
