import PackageExports.Yaml.Layout
import PackageExports.Yaml.Tag

/-!
# Graphs of nodes

The tokens of one document make a graph: its nodes are numbered in the order in which they begin, and a collection
holds the numbers of its parts. An alias adds no node; it stands for the number of the node with its anchor, which
may be one of those around it.

Main definitions: `Yaml.Node`, `Yaml.Graph`, `Yaml.Graph.ofText`.
-/

namespace PackageExports.Yaml

/-- A node with its tag; parts are given by their numbers. -/
inductive Node where
  | scalar (tag : Tag) (text : Text)
  | sequence (tag : Tag) (items : List Nat)
  | mapping (tag : Tag) (pairs : List (Nat × Nat))

namespace Node

def empty : Node :=
  .scalar .null []

def tag : Node → Tag
  | .scalar tag _ | .sequence tag _ | .mapping tag _ => tag

def withTag (tag : Tag) : Node → Node
  | .scalar _ text => .scalar tag text
  | .sequence _ items => .sequence tag items
  | .mapping _ pairs => .mapping tag pairs

/-- The pairs of a mapping; other nodes have none. -/
def pairs : Node → List (Nat × Nat)
  | .mapping _ pairs => pairs
  | _ => []

end Node

/-- The nodes of a document by their numbers, and the number of its root. -/
structure Graph where
  nodes : Array Node
  root : Nat

/-- What is left to read and the fault after it, the nodes so far, which of them have anchors, and what handles of tags
stand for. -/
structure Reading where
  tokens : List Token
  fault : Option Fault
  handles : Keyed Text Text
  nodes : Array Node := #[]
  anchors : Keyed Text Nat := []
  /-- How many collections are being read, one inside the other. -/
  depth : Nat := 0

/-- How many collections may stand one inside the other. -/
def mostDepth : Nat :=
  490

/-- A reading step that may find the tokens in disorder, or none where one is needed. -/
abbrev Read := StateT Reading (Except Fault)

namespace Read

def fail {α : Type} : Read α :=
  fun _ => .error .malformed

def peek : Read (Option Token) :=
  fun r =>
    match r.tokens, r.fault with
    | [], some fault => .error fault
    | tokens, _ => .ok (tokens.head?, r)

def skip : Read Unit :=
  modify fun r => { r with tokens := r.tokens.tail }

/-- Takes a given token, which must come next. -/
def expect (t : Token) : Read Unit := do
  if (← peek) = some t then skip else fail

/-- Whether the next token is one of some. -/
def nextIn (tokens : List Token) : Read Bool := do
  match ← peek with
  | some t => return t ∈ tokens
  | none => return false

def add (node : Node) : Read Nat := do
  let number := (← get).nodes.size
  modify fun r => { r with nodes := r.nodes.push node }
  return number

def addEmpty : Read Nat :=
  add .empty

/-- Remembers the number of a node by its anchor. -/
def remember (anchor : Option Text) (number : Nat) : Read Unit :=
  match anchor with
  | some name => modify fun r => { r with anchors := r.anchors.insert name number }
  | none => pure ()

/-- The full text of a tag. -/
def resolve (handle : Option Text) (suffix : Text) : Read Text := do
  match handle with
  | none => return suffix
  | some handle =>
    match (← get).handles.get? handle with
    | some start => return start ++ suffix
    | none => fail

/-- The anchor and the tag of the next node, in either order. A handle counts as unknown only after the next token. -/
def properties : Read (Option Text × Option Text) := do
  match ← peek with
  | some (.anchor name) =>
    skip
    match ← peek with
    | some (.tag handle suffix) =>
      skip
      return (some name, some (← resolve handle suffix))
    | _ => return (some name, none)
  | some (.tag handle suffix) =>
    skip
    match ← peek with
    | some (.anchor name) =>
      skip
      return (some name, some (← resolve handle suffix))
    | _ => return (none, some (← resolve handle suffix))
  | _ => return (none, none)

def collectionTag (tag : Option Text) (standard : Tag) : Tag :=
  match tag with
  | some t => if t = "!" then standard else .ofText t
  | none => standard

def scalarTag (tag : Option Text) (isPlain : Bool) (text : Text) : Tag :=
  match tag with
  | some t => if t = "!" then .ofPlain text else .ofText t
  | none => if isPlain then .ofPlain text else .str

def addScalar (anchor : Option Text) (tag : Tag) (text : Text) : Read Nat := do
  let number ← add (.scalar tag text)
  remember anchor number
  return number

/-- Reads the parts of a collection. -/
def inside {α : Type} (read : Read α) : Read α := do
  modify fun r => { r with depth := r.depth + 1 }
  if mostDepth < (← get).depth then throw .tooDeep
  let parts ← read
  modify fun r => { r with depth := r.depth - 1 }
  return parts

/-- Adds a collection; its number is known by its anchor before its parts are read. -/
def collect {α : Type} (anchor : Option Text) (read : Read α) (build : α → Node) : Read Nat := do
  let number ← addEmpty
  remember anchor number
  let node := build (← inside read)
  modify fun r => { r with nodes := r.nodes.setIfInBounds number node }
  return number

/-- A place with an anchor or a tag and nothing else. -/
def bare (anchor tag : Option Text) : Read Nat :=
  if anchor.isNone && tag.isNone then fail else addScalar anchor (scalarTag tag true []) []

end Read

open Read

mutual

/-- A node: in block context a block collection may begin, and in a mapping a sequence without further indentation. -/
def Node.read (block indentless : Bool) : (fuel : Nat) → Read Nat
  | 0 => fail
  | fuel + 1 => do
    match ← peek with
    | some (.alias name) =>
      skip
      match (← get).anchors.get? name with
      | some number => return number
      | none => fail
    | _ =>
      let (anchor, tag) ← properties
      let next ← peek
      if anchor.any (← get).anchors.hasKey then fail
      match next with
      | some (.scalar text isPlain) =>
        skip
        addScalar anchor (scalarTag tag isPlain text) text
      | some .blockEntry =>
        if indentless then
          collect anchor (Node.indentlessItems fuel) fun items => .sequence (collectionTag tag .seq) items
        else bare anchor tag
      | some .flowSequenceStart =>
        skip
        collect anchor (Node.flowItems true fuel) fun items => .sequence (collectionTag tag .seq) items
      | some .flowMappingStart =>
        skip
        collect anchor (Node.flowPairs true fuel) fun pairs => .mapping (collectionTag tag .map) pairs
      | some .blockSequenceStart =>
        if block then
          skip
          collect anchor (Node.blockItems fuel) fun items => .sequence (collectionTag tag .seq) items
        else bare anchor tag
      | some .blockMappingStart =>
        if block then
          skip
          collect anchor (Node.blockPairs fuel) fun pairs => .mapping (collectionTag tag .map) pairs
        else bare anchor tag
      | _ => bare anchor tag

/-- The items of a block sequence. -/
def Node.blockItems : (fuel : Nat) → Read (List Nat)
  | 0 => fail
  | fuel + 1 => do
    if ← nextIn [.blockEntry] then
      skip
      let item ← if ← nextIn [.blockEntry, .blockEnd] then addEmpty else Node.read true false fuel
      return item :: (← Node.blockItems fuel)
    else
      expect .blockEnd
      return []

/-- The items of a sequence that is not indented further than the mapping it is in. -/
def Node.indentlessItems : (fuel : Nat) → Read (List Nat)
  | 0 => fail
  | fuel + 1 => do
    if ← nextIn [.blockEntry] then
      skip
      let item ←
        if ← nextIn [.blockEntry, .key, .value, .blockEnd] then addEmpty else Node.read true false fuel
      return item :: (← Node.indentlessItems fuel)
    else return []

/-- The pairs of a block mapping. -/
def Node.blockPairs : (fuel : Nat) → Read (List (Nat × Nat))
  | 0 => fail
  | fuel + 1 => do
    if ← nextIn [.key] then
      let absent : List Token := [.key, .value, .blockEnd]
      skip
      let key ← if ← nextIn absent then addEmpty else Node.read true true fuel
      let value ←
        if ← nextIn [.value] then do
          skip
          if ← nextIn absent then addEmpty else Node.read true true fuel
        else addEmpty
      return (key, value) :: (← Node.blockPairs fuel)
    else
      expect .blockEnd
      return []

/-- The items of a flow sequence; a key in it makes a mapping of one pair. -/
def Node.flowItems (first : Bool) : (fuel : Nat) → Read (List Nat)
  | 0 => fail
  | fuel + 1 => do
    if ← nextIn [.flowSequenceEnd] then
      skip
      return []
    if !first then expect .flowEntry
    if ← nextIn [.key] then
      let item ← inside do
        skip
        let key ← if ← nextIn [.value, .flowEntry, .flowSequenceEnd] then addEmpty else Node.read false false fuel
        let value ←
          if ← nextIn [.value] then do
            skip
            if ← nextIn [.flowEntry, .flowSequenceEnd] then addEmpty else Node.read false false fuel
          else addEmpty
        add (.mapping .map [(key, value)])
      return item :: (← Node.flowItems false fuel)
    else if ← nextIn [.flowSequenceEnd] then
      skip
      return []
    else
      let item ← Node.read false false fuel
      return item :: (← Node.flowItems false fuel)

/-- The pairs of a flow mapping; a node without a value is a key alone. -/
def Node.flowPairs (first : Bool) : (fuel : Nat) → Read (List (Nat × Nat))
  | 0 => fail
  | fuel + 1 => do
    if ← nextIn [.flowMappingEnd] then
      skip
      return []
    if !first then expect .flowEntry
    if ← nextIn [.key] then
      skip
      let key ← if ← nextIn [.value, .flowEntry, .flowMappingEnd] then addEmpty else Node.read false false fuel
      let value ←
        if ← nextIn [.value] then do
          skip
          if ← nextIn [.flowEntry, .flowMappingEnd] then addEmpty else Node.read false false fuel
        else addEmpty
      return (key, value) :: (← Node.flowPairs false fuel)
    else if ← nextIn [.flowMappingEnd] then
      skip
      return []
    else
      let key ← Node.read false false fuel
      let value ← addEmpty
      return (key, value) :: (← Node.flowPairs false fuel)

end

namespace Graph

/-- The handles that always stand for something. -/
def standardHandles : Keyed Text Text :=
  [("!", "!"), ("!!", "tag:yaml.org,2002:")]

/-- The directives before a document: what handles they declare. -/
def readDirectives : (fuel : Nat) → (hasVersion : Bool) → Keyed Text Text → Read (Keyed Text Text)
  | 0, _, _ => fail
  | fuel + 1, hasVersion, declared => do
    match ← peek with
    | some (.versionDirective major) =>
      if hasVersion || major ≠ 1 then fail
      skip
      readDirectives fuel true declared
    | some (.tagDirective handle start) =>
      if declared.hasKey handle then fail
      skip
      readDirectives fuel hasVersion (declared.insert handle start)
    | some .otherDirective =>
      skip
      readDirectives fuel hasVersion declared
    | _ => return declared

/-- Whether the next token belongs to the frame of a document. -/
def atFrame : Read Bool := do
  match ← peek with
  | some (.versionDirective _) | some (.tagDirective _ _) | some .otherDirective | some .documentStart => return true
  | _ => return false

/-- The one document of a text, if there is one, and nothing after it but marks of its end. -/
def readDocument (fuel : Nat) : Read (Option Nat) := do
  if (← peek).isNone then return none
  let root ←
    if ← atFrame then do
      let declared ← readDirectives fuel false []
      expect .documentStart
      modify fun r => { r with handles := declared ++ standardHandles }
      if (← peek).isNone || (← atFrame) || (← nextIn [.documentEnd]) then addEmpty
      else Node.read true false fuel
    else Node.read true false fuel
  modify fun r => { r with tokens := r.tokens.dropWhile (· = .documentEnd) }
  if (← peek).isNone then return some root
  else
    let _ ← readDirectives fuel false []
    fail

/-- The graph of the document in a text; none if the text is empty. -/
def ofText (t : Text) : Except Fault (Option Graph) := do
  let (tokens, fault) := scan t
  let reading : Reading := { tokens, fault, handles := standardHandles }
  let (root, read) ← (readDocument (3 * tokens.length + 10)).run reading
  return root.map fun root => { nodes := read.nodes, root }

end Graph

end PackageExports.Yaml
