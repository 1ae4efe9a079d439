import PackageExports.Grammar.Automaton
import PackageExports.Text.Basic

/-!
# Trees of phrases

What has been read is a tree: its leaves are tokens, its other nodes phrases. A node knows where it starts and stops,
what the errors in it cost and what favour it has. Trees that cover the same text are compared by cost and favour.

Main definitions: `Place`, `Tree`, `Tree.phrase`, `Tree.compare`.
-/

namespace PackageExports.Grammar

/-- A place in a text: how much of the text lies before it, and what follows. -/
structure Place where
  offset : Nat
  /-- The length in bytes of what lies before. -/
  bytes : Nat
  /-- The number of lines that have ended. -/
  row : Nat
  rest : Text
deriving Inhabited

namespace Place

def ofText (t : Text) : Place :=
  ⟨0, 0, 0, t⟩

/-- The length in bytes of a code point, a surrogate counted as three. -/
def width (c : CodePoint) : Nat :=
  if c.val < 0x80 then 1 else if c.val < 0x800 then 2 else if c.val < 0x10000 then 3 else 4

def advance (p : Place) : (count : Nat) → Place
  | 0 => p
  | count + 1 =>
    match p.rest with
    | [] => p
    | c :: rest => advance ⟨p.offset + 1, p.bytes + width c, if c = '\n' then p.row + 1 else p.row, rest⟩ count

def skip (p : Place) (f : CodePoint → Bool) : Place :=
  p.advance (p.rest.takeWhile f).length

def textTo (p q : Place) : Text :=
  p.rest.take (q.offset - p.offset)

end Place

/-- A token that has been found. -/
structure Lexeme where
  token : Nat
  start : Place
  stop : Place
  /-- Whether it is a word that some rules name. -/
  isKeyword : Bool := false

/-- What a node is, and what is known of all below it. -/
structure Root where
  symbol : Nat
  /-- Where the white space before it starts. -/
  before : Place
  start : Place
  stop : Place
  cost : Nat := 0
  favour : Int := 0
  /-- Whether it is a node of the finished tree; other nodes only group their parts. -/
  isShown : Bool
  /-- How many shown nodes are below it. -/
  shownBelow : Nat := 0
  /-- How many of them are its parts, or parts of parts that are not shown. -/
  shownParts : Nat := 0
  /-- Whether it may stand anywhere, as comments may. -/
  isExtra : Bool := false
  isKeyword : Bool := false

/-- A tree of phrases. -/
inductive Tree where
  | node (root : Root) (parts : List Tree)

/-- The costs of errors. -/
structure Prices where
  recovery : Nat := 500
  missing : Nat := 110
  skippedTree : Nat := 100
  skippedByte : Nat := 1
  skippedLine : Nat := 30

def prices : Prices := {}

namespace Table

/-- The symbol of what could not be understood. -/
def confusion (g : Table) : Nat :=
  g.tokens + g.heads.size + 1

/-- The symbol of a piece of what cannot be understood, while it is being read. -/
def confusionPiece (g : Table) : Nat :=
  g.tokens + g.heads.size + 2

end Table

namespace Tree

def root : Tree → Root
  | node root _ => root

def parts : Tree → List Tree
  | node _ parts => parts

def modify (f : Root → Root) : Tree → Tree
  | node root parts => node (f root) parts

/-- The tree as one that may stand anywhere. -/
def asExtra (t : Tree) : Tree :=
  t.modify fun root => { root with isExtra := true }

/-- How many shown nodes a tree has, an unfinished piece of what cannot be understood counted as one more. -/
def size (g : Table) (t : Tree) : Nat :=
  t.root.shownBelow + (if t.root.isShown then 1 else 0) + if t.root.symbol = g.confusionPiece then 1 else 0

/-- What is added to the cost of what cannot be understood for one of its parts. -/
def costInside (g : Table) (part : Tree) : Nat :=
  if part.root.isExtra || (part.root.symbol = g.confusion && part.parts.isEmpty) then 0
  else if part.root.isShown then prices.skippedTree
  else if part.parts.isEmpty then 0
  else prices.skippedTree * part.root.shownParts

/-- The phrase of a symbol with some parts; one without parts stands at `place`. -/
def phrase (g : Table) (isShown : Bool) (symbol : Nat) (parts : List Tree) (place : Place) : Tree :=
  let isConfused := symbol = g.confusion ∨ symbol = g.confusionPiece
  let (before, start) := (parts.head?.map fun p => (p.root.before, p.root.start)).getD (place, place)
  let stop := (parts.getLast?.map (·.root.stop)).getD place
  let below := parts.foldl
    (fun (r : Root) part =>
      let p := part.root
      { r with
        cost := r.cost + (if p.symbol = g.confusionPiece then 0 else p.cost) +
          (if isConfused then costInside g part else 0)
        favour := r.favour + p.favour
        shownBelow := r.shownBelow + p.shownBelow + if p.isShown then 1 else 0
        shownParts := r.shownParts + if p.isShown then 1 else if part.parts.isEmpty then 0 else p.shownParts })
    { symbol, before, start, stop, isShown }
  let confused :=
    if isConfused then
      prices.recovery + prices.skippedByte * (stop.bytes - start.bytes) + prices.skippedLine * (stop.row - start.row)
    else 0
  .node { below with cost := below.cost + confused } parts

mutual

/-- Whether a tree comes after another one in the order of symbols, then of the numbers of parts, then part by part. -/
def compare : Tree → Tree → Ordering
  | node a as, node b bs =>
    match Ord.compare a.symbol b.symbol with
    | .eq =>
      match Ord.compare as.length bs.length with
      | .eq => compareAll as bs
      | o => o
    | o => o
termination_by structural t => t

/-- The order of the first parts that differ. -/
def compareAll : List Tree → List Tree → Ordering
  | a :: as, b :: bs =>
    match compare a b with
    | .eq => compareAll as bs
    | o => o
  | _, _ => .eq
termination_by structural ts => ts

end

/-- Whether the second of two trees for the same text is the better one. -/
def isWorse (t u : Tree) : Bool :=
  if u.root.cost ≠ t.root.cost then u.root.cost < t.root.cost
  else if u.root.favour ≠ t.root.favour then t.root.favour < u.root.favour
  else 0 < t.root.cost || compare t u == .gt

/-- Whether two trees count as the same when they connect the same states. -/
def isLike (t u : Tree) : Bool :=
  let a := t.root
  let b := u.root
  a.symbol == b.symbol &&
    ((0 < a.cost && 0 < b.cost) ||
      (a.before.offset == b.before.offset && a.start.offset == b.start.offset && a.stop.offset == b.stop.offset &&
        t.parts.length == u.parts.length && a.isExtra == b.isExtra))

/-- A list of trees without the extras at its end, and these. -/
def splitExtras (ts : List Tree) : List Tree × List Tree :=
  let extras := (ts.reverse.takeWhile (·.root.isExtra)).reverse
  (ts.take (ts.length - extras.length), extras)

end Tree

end PackageExports.Grammar
