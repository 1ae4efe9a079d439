import PackageExports.Json.Value

/-!
# Export conditions

The target of an export under each condition. A runtime takes the first condition that applies to it, so their order
has a meaning; it is the same for all exports. An empty target counts as none.

Main definitions: `Condition`, `Conditions`, `Conditions.items`, `Conditions.toExport`.
-/

namespace PackageExports

/-- A condition under which a target is taken. -/
inductive Condition where
  | source
  | types
  | imported
  | required
  | browser
  | otherwise
deriving DecidableEq

namespace Condition

/-- All conditions in the order in which they are tried. -/
def all : List Condition :=
  [source, types, imported, required, browser, otherwise]

def key : Condition → Text
  | source => "source"
  | types => "types"
  | imported => "import"
  | required => "require"
  | browser => "browser"
  | otherwise => "default"

def ofKey (t : Text) : Option Condition :=
  all.find? fun c => c.key = t

end Condition

/-- The targets of an export. -/
structure Conditions where
  source : Option Text := none
  types : Option Text := none
  imported : Option Text := none
  required : Option Text := none
  browser : Option Text := none
  otherwise : Option Text := none
deriving DecidableEq

namespace Conditions

/-- The target under a condition; an empty one is none. -/
def target? (cs : Conditions) (c : Condition) : Option Text :=
  Option.filter (!·.isEmpty) <|
    match c with
    | .source => cs.source
    | .types => cs.types
    | .imported => cs.imported
    | .required => cs.required
    | .browser => cs.browser
    | .otherwise => cs.otherwise

def set (cs : Conditions) (c : Condition) (target : Option Text) : Conditions :=
  match c with
  | .source => { cs with source := target }
  | .types => { cs with types := target }
  | .imported => { cs with imported := target }
  | .required => { cs with required := target }
  | .browser => { cs with browser := target }
  | .otherwise => { cs with otherwise := target }

/-- The conditions that have a target, in their order. -/
def items (cs : Conditions) : List (Condition × Text) :=
  Condition.all.filterMap fun c => (cs.target? c).map fun target => (c, target)

def isEmpty (cs : Conditions) : Bool :=
  cs.items.isEmpty

/-- The object with a member for each condition that has a target. -/
def toJson (cs : Conditions) : Json :=
  .object (cs.items.map fun (c, target) => (c.key, .string target))

/-- How the targets are written as an export: a single target without a condition stands for itself. -/
def toExport (cs : Conditions) : Json :=
  match cs.items with
  | [(.otherwise, target)] => .string target
  | _ => cs.toJson

end Conditions

end PackageExports
