import PackageExports.Yaml.Graph
import PackageExports.Yaml.Number
import PackageExports.Yaml.Value

/-!
# The document that a graph stands for

A scalar is read by its tag as soon as its place is come upon. A collection is there at once but filled later, after
all those that were come upon before it, so that it may hold itself. Which fault comes out is a matter of that order.

Before a mapping is filled, the pairs of the mappings that it merges are put before its own, and a mark for a default
among its keys becomes a plain string; both stay so wherever else the node is used.

Main definitions: `Yaml.bytesOfBase64`, `Yaml.Build.visit`, `Yaml.Build.merge`, `Yaml.Build.fill`, `Yaml.load`.
-/

namespace PackageExports.Yaml

/-- The value of a sixth of a group of base 64. -/
def base64Digit? (c : CodePoint) : Option Nat :=
  if c.isUpper then some (c.val - 65)
  else if c.isLower then some (c.val - 71)
  else if c.isDigit then some (c.val + 4)
  else if c = '+' then some 62
  else if c = '/' then some 63
  else none

/-- The bytes of groups of four digits, the last group being shorter if there are fewer bytes. -/
def bytesOfDigits : List Nat → List UInt8
  | a :: b :: c :: d :: rest =>
    let group := ((a * 64 + b) * 64 + c) * 64 + d
    UInt8.ofNat (group / 65536) :: UInt8.ofNat (group / 256 % 256) :: UInt8.ofNat (group % 256) :: bytesOfDigits rest
  | [a, b, c] =>
    let group := (a * 64 + b) * 64 + c
    [UInt8.ofNat (group / 1024), UInt8.ofNat (group / 4 % 256)]
  | [a, b] => [UInt8.ofNat ((a * 64 + b) / 16)]
  | _ => []

/-- The digits of base 64 in a text, up to the padding that fills their last group of four; none if that group is left
open. Other code points are passed over, and so is padding where none is due. -/
def base64Digits? : (inGroup padding : Nat) → Text → Option (List Nat)
  | inGroup, _, [] => if inGroup = 0 then some [] else none
  | inGroup, padding, c :: rest =>
    if c = '=' then
      if inGroup < 2 then base64Digits? inGroup padding rest
      else if 4 ≤ inGroup + padding + 1 then some []
      else base64Digits? inGroup (padding + 1) rest
    else
      match base64Digit? c with
      | some d => (base64Digits? ((inGroup + 1) % 4) 0 rest).map (d :: ·)
      | none => base64Digits? inGroup padding rest

/-- The bytes that a text writes in base 64. -/
def bytesOfBase64 (t : Text) : Except Fault (List UInt8) :=
  if !t.all (·.val < 128) then .error .malformed
  else
    match base64Digits? 0 0 t with
    | some digits => .ok (bytesOfDigits digits)
    | none => .error .malformed

/-- A document under construction: the nodes as they are by now, what stands for those come upon so far, and the
collections that are not filled yet, the last one first. -/
structure Building where
  nodes : Array Node
  values : Array (Option Value)
  collections : Array (Option Collection)
  waiting : List Nat := []

/-- A step of construction. -/
abbrev Build := StateT Building (Except Fault)

namespace Build

def fail {α : Type} (fault : Fault) : Build α :=
  fun _ => .error fault

def node (number : Nat) : Build Node := do
  return ((← get).nodes[number]?).getD .empty

def replace (number : Nat) (node : Node) : Build Unit :=
  modify fun b => { b with nodes := b.nodes.setIfInBounds number node }

/-- The text of a scalar, or of the default of a mapping. -/
def scalarText : (fuel : Nat) → (number : Nat) → Build Text
  | 0, _ => fail .tooDeep
  | fuel + 1, number => do
    match ← node number with
    | .scalar _ t => return t
    | .mapping _ pairs =>
      match ← pairs.findM? fun (key, _) => do return (← node key).tag = .value with
      | some (_, value) => scalarText fuel value
      | none => fail .malformed
    | .sequence _ _ => fail .malformed

/-- The atom that a text stands for by a tag. -/
def atomOfText (tag : Tag) (t : Text) : Except Fault Atom :=
  match tag with
  | .null => .ok .null
  | .bool =>
    match boolOfWord? (Text.toLower t) with
    | some b => .ok (.bool b)
    | none => .error (.unknownWord (Text.toLower t))
  | .int => (readInteger t).map .integer
  | .float => (readReal t).map .real
  | .binary => (bytesOfBase64 t).map .bytes
  | .timestamp =>
    match Moment.ofText? (dropLineEnd t) with
    | some m =>
      match m.fault? with
      | some part => .error (.noSuchMoment part)
      | none => .ok (.moment m.instant)
    | none => .error .shapelessMoment
  | .str => .ok (.text t)
  | _ => .error .malformed

/-- Whether nodes with a tag are filled later. -/
def isDeferred (tag : Tag) : Bool :=
  tag ∈ [Tag.seq, .map, .set, .pairs]

/-- The atom of a node; a mapping may have a default, but not for a moment. -/
def atom (number : Nat) : Build Atom := do
  let tag := (← node number).tag
  if tag ∈ [Tag.merge, .value, .other] then fail .malformed
  let t ← scalarText ((← get).nodes.size + 1) number
  match tag, ← node number with
  | .timestamp, .mapping _ _ => fail .momentOfMapping
  | _, _ => liftM (atomOfText tag t)

/-- What stands for a node. -/
def visit (number : Nat) : Build Value := do
  match ((← get).values[number]?).join with
  | some value => return value
  | none =>
    let value ←
      if isDeferred (← node number).tag then do
        modify fun b => { b with waiting := number :: b.waiting }
        pure (.collection number)
      else .atom <$> atom number
    modify fun b => { b with values := b.values.setIfInBounds number (some value) }
    return value

/-- Takes the first mark for merging out of pairs: what it merges, and the other pairs. -/
def takeMerge : List (Nat × Nat) → Build (Option (Nat × List (Nat × Nat)))
  | [] => return none
  | (key, value) :: rest => do
    if (← node key).tag = .merge then return some (value, rest)
    else return (← takeMerge rest).map fun (merged, others) => (merged, (key, value) :: others)

/-- Puts the pairs that a mapping merges before its own, after some that it has merged already, and gives all of them.
Each step takes a mark for merging away, so their number bounds the steps. -/
def merge : (fuel : Nat) → (merged : List (Nat × Nat)) → (number : Nat) → Build (List (Nat × Nat))
  | 0, _, _ => fail .malformed
  | fuel + 1, merged, number => do
    let mapping ← node number
    match ← takeMerge mapping.pairs with
    | some (source, others) =>
      -- the mark is gone before its source is looked at, which may be the mapping itself
      replace number (.mapping mapping.tag others)
      let more ←
        match ← node source with
        | .mapping _ _ => merge fuel [] source
        | .sequence _ items => do
          let parts ← items.mapM fun item => do
            match ← node item with
            | .mapping _ _ => merge fuel [] item
            | _ => fail .malformed
          pure parts.reverse.flatten
        | .scalar _ _ => fail .malformed
      merge fuel (merged ++ more) number
    | none =>
      for (key, _) in mapping.pairs do
        let keyNode ← node key
        -- as a key, `=` is a text
        if keyNode.tag = .value then replace key (keyNode.withTag .str)
      let all := merged ++ mapping.pairs
      replace number (.mapping mapping.tag all)
      return all

/-- The pairs of a mapping, later values replacing earlier ones. A key must be an atom. -/
def pairsOf (number : Nat) : Build (List (Atom × Value)) := do
  let marks := (← get).nodes.foldl (fun n node => n + node.pairs.length) 1
  (← merge marks [] number).foldlM
    (fun assigned (key, value) => do
      match ← visit key with
      | .atom a => return Collection.assign a (← visit value) assigned
      | .collection _ => fail .malformed)
    []

/-- What fills the collection of a node. -/
def contents (number : Nat) : Build Collection := do
  match ← node number with
  | .sequence .seq items => return .sequence (← items.mapM visit)
  | .sequence .pairs items => do
    let pairs ← items.mapM fun item => do
      match ← node item with
      | .mapping _ [(key, value)] => return (← visit key, ← visit value)
      | _ => fail .malformed
    return .entries pairs
  | .mapping .map _ => return .mapping (← pairsOf number)
  | .mapping .set _ => return .set ((← pairsOf number).map Prod.fst)
  | _ => fail .malformed

/-- Fills the collection of a node. -/
def fill (number : Nat) : Build Unit := do
  let collection ← contents number
  modify fun b => { b with collections := b.collections.setIfInBounds number (some collection) }

/-- Fills the collections that wait, then those come upon meanwhile, and so on; each is filled once. -/
def fillAll : (fuel : Nat) → Build Unit
  | 0 => pure ()
  | fuel + 1 => do
    let waiting := (← get).waiting
    if waiting.isEmpty then pure ()
    else
      modify fun b => { b with waiting := [] }
      waiting.reverse.forM fill
      fillAll fuel

end Build

/-- The document that a graph stands for. -/
def Document.ofGraph (g : Graph) : Except Fault Document := do
  let absent := g.nodes.size
  let start : Building :=
    { nodes := g.nodes, values := Array.replicate absent none, collections := Array.replicate absent none }
  let build : Build Value := do
    let root ← Build.visit g.root
    Build.fillAll (absent + 1)
    return root
  let (root, built) ← build.run start
  return { root, collections := built.collections }

/-- The one document of a text; an empty text is a null. -/
def load (t : Text) : Except Fault Document := do
  match ← Graph.ofText t with
  | some graph => Document.ofGraph graph
  | none => return {}

end PackageExports.Yaml
