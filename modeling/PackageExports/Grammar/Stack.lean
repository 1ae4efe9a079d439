import PackageExports.Grammar.Tree

/-!
# Readings side by side

Where a text can be read on in several ways, the ways are followed side by side as versions of one reading. Each version
is a stack of states and trees; stacks share their lower parts, and versions that come to the same state at the same
place are merged, so that a stack node may be reached by several links.

Main definitions: `Stage`, `Reading`, `Reading.push`, `Reading.merge`, `Reading.pop`.
-/

namespace PackageExports.Grammar

/-- Where a version stands: in a state, lost after an error, or at the end. -/
inductive Stage where
  | state (n : Nat)
  | lost
  | done
deriving DecidableEq, Inhabited

/-- A step down in a stack, with the tree that was pushed; there is none where the reading got lost. -/
structure Link where
  node : Nat
  tree : Option Tree

/-- A node of the stacks. The first link is the preferred one. -/
structure StackNode where
  stage : Stage
  place : Place
  cost : Nat := 0
  favour : Int := 0
  /-- How many shown nodes have been read. -/
  size : Nat := 0
  links : List Link := []
deriving Inhabited

/-- What becomes of a version: it goes on, waits with a token that it cannot read, or is given up. -/
inductive Status where
  | active
  | waiting (token : Tree)
  | ended

/-- A stage that a version passed before it got lost, `depth` trees below. -/
structure Landmark where
  stage : Stage
  place : Place
  depth : Nat

/-- One way in which the text is being read. -/
structure Version where
  node : Nat
  /-- How many shown nodes had been read when the version last got lost. -/
  sizeWhenLost : Nat := 0
  status : Status := .active
  landmarks : Option (List Landmark) := none

/-- What is known of a grammar's tokens and symbols by those who read a text. -/
structure Language where
  table : Table
  /-- Whether the phrases of a symbol are nodes of the finished tree. -/
  isShown : Nat → Bool
  /-- The tokens that may stand anywhere. -/
  extras : TokenSet
  /-- The token of words, as which a keyword counts where it cannot stand as itself. -/
  word : Nat
  /-- The token at a place that is found by what is around it, among those that can stand there. -/
  implied? : TokenSet → Place → Option Lexeme
  /-- The token at a place, among those that can stand there. -/
  lexeme? : TokenSet → Place → Option Lexeme
  /-- The tokens that are looked for by a reading that got lost. -/
  anything : TokenSet
  /-- What may stand between tokens. -/
  isSpace : CodePoint → Bool

/-- A text being read. -/
structure Reading where
  automaton : Automaton
  nodes : Array StackNode
  versions : Array Version
  /-- The best tree for the whole text so far, and how many have been found. -/
  finished : Option Tree := none
  found : Nat := 0

namespace Status

def isActive : Status → Bool
  | active => true
  | _ => false

def isWaiting : Status → Bool
  | waiting _ => true
  | _ => false

def isOver : Status → Bool
  | ended => true
  | _ => false

end Status

/-- What is done with a text being read. -/
abbrev Step := StateM Reading

namespace Reading

/-- The largest numbers of versions, of versions for a short while, of links of a node, and of ways down a stack. -/
def mostVersions : Nat := 6
def mostVersionsAtOnce : Nat := 10
def mostLinks : Nat := 8
def mostPaths : Nat := 64

def version (r : Reading) (v : Nat) : Version :=
  r.versions.getD v { node := 0, status := .ended }

def top (r : Reading) (v : Nat) : StackNode :=
  r.nodes.getD (r.version v).node default

def stage (r : Reading) (v : Nat) : Stage :=
  (r.top v).stage

def changeVersion (v : Nat) (f : Version → Version) : Step Unit :=
  modify fun r => { r with versions := r.versions.modify v f }

def removeVersion (v : Nat) : Step Unit :=
  modify fun r => { r with versions := r.versions.eraseIdxIfInBounds v }

def giveUp (v : Nat) : Step Unit :=
  changeVersion v fun version => { version with status := .ended }

def push (g : Table) (v : Nat) (tree : Option Tree) (stage : Stage) : Step Unit := do
  let r ← get
  let below := r.top v
  let link : Link := ⟨(r.version v).node, tree⟩
  let node : StackNode :=
    match tree with
    | none => { below with stage, links := [link] }
    | some t =>
      { stage
        place := if below.place.offset < t.root.stop.offset then t.root.stop else below.place
        cost := below.cost + t.root.cost
        favour := below.favour + t.root.favour
        size := below.size + t.size g
        links := [link] }
  let n := r.nodes.size
  modify fun r => { r with nodes := r.nodes.push node }
  changeVersion v fun version =>
    { version with node := n, sizeWhenLost := if tree.isNone then node.size else version.sizeWhenLost }

def cost (r : Reading) (v : Nat) : Nat :=
  let top := r.top v
  let isNewlyLost := top.stage = .lost && (top.links.head?.any fun link => link.tree.isNone)
  if (r.version v).status.isWaiting || isNewlyLost then top.cost + prices.recovery else top.cost

/-- How many shown nodes a version has read since it last got lost. If it has gone back since then, it counts from the
place to which it went back. -/
def progress (v : Nat) : Step Nat := do
  let size := ((← get).top v).size
  changeVersion v fun version => { version with sizeWhenLost := min version.sizeWhenLost size }
  return size - ((← get).version v).sizeWhenLost

/-- Whether two versions can be merged. -/
def canMerge (r : Reading) (v w : Nat) : Bool :=
  let a := r.top v
  let b := r.top w
  (r.version v).status.isActive && (r.version w).status.isActive && a.stage == b.stage &&
    a.place.offset == b.place.offset && a.cost == b.cost

/-- Whether the trees of two links count as the same. -/
def areAlike : Option Tree → Option Tree → Bool
  | none, none => true
  | some t, some u => t.isLike u
  | _, _ => false

def Link.favour (link : Link) : Int :=
  (link.tree.map (·.root.favour)).getD 0

/-- Adds a link to a stack node, `fuel` levels deep at most: if it has a link with a tree that counts as the same, from
the same node, the tree of greater favour is kept, and from a node that can be merged, the nodes are merged. -/
def addLink (g : Table) : (fuel : Nat) → (n : Nat) → Link → Step Unit
  | 0, _, _ => pure ()
  | fuel + 1, n, link => do
    -- a stack must not lead back to itself
    if link.node = n then return
    let r ← get
    let node := r.nodes.getD n default
    let below := r.nodes.getD link.node default
    let isSame (old : Link) : Bool :=
      let oldBelow := r.nodes.getD old.node default
      areAlike old.tree link.tree &&
        (old.node == link.node ||
          (oldBelow.stage == below.stage && oldBelow.place.offset == below.place.offset &&
            oldBelow.cost == below.cost))
    match node.links.find? isSame with
    | some old =>
      if old.node = link.node then
        if Link.favour old < Link.favour link then
          let i := node.links.findIdx isSame
          let node := { node with links := node.links.set i link, favour := below.favour + Link.favour link }
          modify fun r => { r with nodes := r.nodes.setIfInBounds n node }
      else
        -- nodes below that can be merged become one
        below.links.forM fun l => addLink g fuel old.node l
        let favour := below.favour + Link.favour link
        modify fun r => { r with nodes := r.nodes.modify n fun node =>
          { node with favour := if node.favour < favour then favour else node.favour } }
    | none =>
      if node.links.length < mostLinks then
        let favour := below.favour + Link.favour link
        let size := below.size + (link.tree.map (·.size g)).getD 0
        let node := { node with
          links := node.links ++ [link]
          favour := if node.favour < favour then favour else node.favour
          size := if node.size < size then size else node.size }
        modify fun r => { r with nodes := r.nodes.setIfInBounds n node }

def merge (g : Table) (v w : Nat) : Step Bool := do
  let r ← get
  if r.canMerge v w then
    let target := (r.version v).node
    (r.top w).links.forM fun link => addLink g r.nodes.size target link
    let merged := (← get).top v
    if merged.stage = .lost then
      changeVersion v fun version => { version with sizeWhenLost := merged.size }
    removeVersion w
    return true
  else return false

def replaceVersion (source target : Nat) : Step Unit := do
  if source ≠ target then
    modify fun r =>
      let new := r.version source
      let old := r.version target
      let new := { new with landmarks := new.landmarks <|> old.landmarks }
      { r with versions := (r.versions.setIfInBounds target new).eraseIdxIfInBounds source }

/-- A way down a stack: the node reached, the trees on the way, and how many of them are not extras. -/
structure Path where
  node : Nat
  trees : List Tree := []
  count : Nat := 0

def Path.follow (path : Path) (link : Link) : Path :=
  match link.tree with
  | none => ⟨link.node, path.trees, path.count + 1⟩
  | some t => ⟨link.node, t :: path.trees, if t.root.isExtra then path.count else path.count + 1⟩

/-- Lengthens paths by a link each: a path forks where its node has several links. `size` is the number of all paths. -/
def lengthen (r : Reading) : (size : Nat) → (forks : List Path) → List Path → List Path
  | _, forks, [] => forks.reverse
  | size, forks, path :: rest =>
    match (r.nodes.getD path.node default).links with
    | [] => lengthen r size forks rest
    | link :: others =>
      let others := others.take (mostPaths - size)
      path.follow link :: lengthen r (size + others.length) ((others.map path.follow).reverse ++ forks) rest

/-- The paths down from a node in the order in which they are looked at, shortest first, in at most `fuel` rounds. A
path that has come to an end is not lengthened. -/
def paths (r : Reading) (isEnd : Path → Bool) : (fuel : Nat) → List Path → List Path
  | 0, _ => []
  | _, [] => []
  | fuel + 1, current =>
    let unfinished := current.filter (!isEnd ·)
    current ++ paths r isEnd fuel (lengthen r unfinished.length [] unfinished)

/-- Adds a version for the node to which a path leads, or takes the one that an earlier path to that node led to. The
paths of a version stay together. -/
def addPath (v : Nat) (slices : List (Nat × List Tree)) (path : Path) : Step (List (Nat × List Tree)) := do
  let r ← get
  match slices.findIdx? fun slice => (r.version slice.1).node == path.node with
  | some i =>
    let w := (slices.getD i (0, [])).1
    let (before, after) := slices.span fun slice => slice.1 != w
    return before ++ after.takeWhile (·.1 == w) ++ (w, path.trees) :: after.dropWhile (·.1 == w)
  | none =>
    let w := r.versions.size
    let version : Version := { node := path.node, sizeWhenLost := (r.version v).sizeWhenLost }
    modify fun r => { r with versions := r.versions.push version }
    return slices ++ [(w, path.trees)]

/-- The paths down the stack of a version to an end: each with its trees and a version for the node it leads to. -/
def popWhere (v : Nat) (isEnd : Path → Bool) : Step (List (Nat × List Tree)) := do
  let r ← get
  let all := r.paths isEnd (r.nodes.size + 1) [{ node := (r.version v).node }]
  (all.filter isEnd).foldlM (addPath v) []

/-- Takes a number of trees, extras not counted, off the stack of a version, in every possible way. -/
def pop (v count : Nat) : Step (List (Nat × List Tree)) :=
  popWhere v fun path => path.count = count

end Reading

end PackageExports.Grammar
