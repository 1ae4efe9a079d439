import PackageExports.Json.Value
import PackageExports.Text.Utf8
import PackageExports.Yaml.Moment

/-!
# YAML values

A document holds atoms and collections. A collection is known by the number of its node, so one that stands at several
places is there once, and one may hold itself. The keys of a mapping are atoms, and so are the items of a set; two
numbers that are equal are one key.

`Document.toJson` gives the counterpart of a document in JSON down to a given depth: bytes are a string if they are
UTF-8, and what has no counterpart is a null.

Main definitions: `Yaml.Atom`, `Yaml.Value`, `Yaml.Collection`, `Yaml.Document`, `Yaml.Document.toJson`.
-/

namespace PackageExports.Yaml

/-- A value that is not made of others. -/
inductive Atom where
  | null
  | bool (b : Bool)
  | integer (n : Int)
  | real (x : Binary64)
  | text (t : Text)
  | bytes (content : List UInt8)
  | moment (instant : Instant)
deriving DecidableEq

/-- What stands at a place: an atom, or the collection of a node. -/
inductive Value where
  | atom (a : Atom)
  | collection (node : Nat)

/-- A collection. -/
inductive Collection where
  | sequence (items : List Value)
  | entries (pairs : List (Value × Value))
  | mapping (pairs : List (Atom × Value))
  | set (items : List Atom)

/-- A value with the collections that it is made of, by the numbers of their nodes. -/
structure Document where
  root : Value := .atom .null
  collections : Array (Option Collection) := #[]

namespace Atom

/-- The form of an atom as a key: a truth value and a number without a fraction are integers. -/
def asKey : Atom → Atom
  | .bool b => .integer (if b then 1 else 0)
  | .real x =>
    match x.toInt? with
    | some n => .integer n
    | none => .real x
  | a => a

/-- Whether an atom is neither null, false, zero nor empty. -/
def isTruthy : Atom → Bool
  | .null => false
  | .bool b => b
  | .integer n => n != 0
  | .real x => !x.isZero
  | .text t => !t.isEmpty
  | .bytes content => !content.isEmpty
  | .moment _ => true

/-- The counterpart of an atom in JSON. -/
def toJson : Atom → Json
  | .null | .moment _ => .null
  | .bool b => .bool b
  | .integer n => .integer n
  | .real x => .real x
  | .text t => .string t
  | .bytes content =>
    match Utf8.decode? content with
    | some t => .string t
    | none => .null

end Atom

namespace Collection

/-- Assigns a value to a key; the key that was there first stays. -/
def assign (key : Atom) (value : Value) : List (Atom × Value) → List (Atom × Value)
  | [] => [(key, value)]
  | (k, v) :: rest => if k.asKey = key.asKey then (k, value) :: rest else (k, v) :: assign key value rest

def isEmpty : Collection → Bool
  | .sequence items => items.isEmpty
  | .entries pairs => pairs.isEmpty
  | .mapping pairs => pairs.isEmpty
  | .set items => items.isEmpty

end Collection

namespace Document

def collection? (d : Document) (node : Nat) : Option Collection :=
  (d.collections[node]?).join

/-- Whether the root is neither null, false, zero nor empty. -/
def isTruthy (d : Document) : Bool :=
  match d.root with
  | .atom a => a.isTruthy
  | .collection node => (d.collection? node).any (!·.isEmpty)

/-- The keys of the root, if it is a mapping. -/
def keys? (d : Document) : Option (List Atom) :=
  match d.root with
  | .atom _ => none
  | .collection node =>
    match d.collection? node with
    | some (.mapping pairs) => some (pairs.map Prod.fst)
    | _ => none

/-- The counterpart of a value in JSON, with so many levels of collections; further ones are nulls. Only pairs with a
text for a key count. -/
def valueToJson (d : Document) : (depth : Nat) → Value → Json
  | _, .atom a => a.toJson
  | 0, .collection _ => .null
  | depth + 1, .collection node =>
    match d.collection? node with
    | some (.sequence items) => .array (items.map (d.valueToJson depth))
    | some (.entries pairs) =>
      .array (pairs.map fun (key, value) => .array [d.valueToJson depth key, d.valueToJson depth value])
    | some (.mapping pairs) =>
      .object (pairs.filterMap fun (key, value) =>
        match key with
        | .text name => some (name, d.valueToJson depth value)
        | _ => none)
    | some (.set items) => .array (items.map Atom.toJson)
    | none => .null

/-- The counterpart of a document in JSON, with so many levels of collections. -/
def toJson (d : Document) (depth : Nat) : Json :=
  d.valueToJson depth d.root

end Document

end PackageExports.Yaml
