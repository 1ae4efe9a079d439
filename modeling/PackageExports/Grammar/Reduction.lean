import PackageExports.Grammar.Stack

/-!
# Reducing

A finished production is taken off the stack and replaced by the phrase that it makes up. If the stack can be taken down
in several ways, each is a version of its own; of several ways to the same node the better tree is kept.

Main definitions: `Language.entry`, `Reading.next`, `Reading.reduce`.
-/

namespace PackageExports.Grammar

namespace Reading

def actions (l : Language) (r : Reading) (stage : Stage) (token : Nat) : List Action :=
  match stage with
  | .state n => (r.automaton.state n).actions l.table token
  | _ => []

def tokens (r : Reading) (stage : Stage) : TokenSet :=
  match stage with
  | .state n => (r.automaton.state n).tokens
  | _ => 0

def accepts (l : Language) (r : Reading) (stage : Stage) (token : Nat) : Bool :=
  match stage with
  | .state _ => (r.tokens stage).has token || l.extras.has token
  | .lost => true
  | .done => false

def next (l : Language) (stage : Stage) (symbol : Nat) : Step (Option Stage) := do
  match stage with
  | .state n =>
    modifyGet fun r =>
      let ⟨automaton, nodes, versions, finished, found⟩ := r
      let (automaton, target) := automaton.next l.table n symbol
      (target.map .state, ⟨automaton, nodes, versions, finished, found⟩)
  | _ => return none

/-- The better one of the phrases that some lists of parts make up, with the extras that stood at the end of its
list. -/
def bestPhrase (l : Language) (symbol : Nat) (place : Place) (first : List Tree) (others : List (List Tree)) :
    Tree × List Tree :=
  let phrase (trees : List Tree) : Tree × List Tree :=
    let (parts, extras) := Tree.splitExtras trees
    (.phrase l.table (l.isShown symbol) symbol parts place, extras)
  others.foldl
    (fun best trees =>
      let other := phrase trees
      if best.1.isWorse other.1 then other else best)
    (phrase first)

/-- Merges a new version into one of those before it, if there is one that it can be merged with. -/
def mergeInto (g : Table) (v : Nat) : (others : List Nat) → Step Bool
  | [] => return false
  | w :: others => do
    if ← merge g w v then return true
    else mergeInto g v others

/-- Pushes the phrases made of what was taken off the stack of version `v`. The versions `slices` speaks of have
moved up by `removed` since. -/
def pushPhrases (l : Language) (v symbol : Nat) (favour : Int) :
    (fuel removed : Nat) → List (Nat × List Tree) → Step Unit
  | 0, _, _ => pure ()
  | _, _, [] => pure ()
  | fuel + 1, removed, (w, trees) :: rest => do
    let others := (rest.takeWhile (·.1 == w)).map (·.2)
    let rest := rest.dropWhile (·.1 == w)
    let target := w - removed
    let r ← get
    if mostVersionsAtOnce + (r.versions.filter (·.status.isOver)).size < target then
      removeVersion target
      pushPhrases l v symbol favour fuel (removed + 1) rest
    else
      let (phrase, extras) := bestPhrase l symbol (r.top target).place trees others
      let phrase := phrase.modify fun root => { root with favour := root.favour + favour }
      let stage := (← next l (r.stage target) symbol).getD .lost
      push l.table target (some phrase) stage
      extras.forM fun t => push l.table target (some t) stage
      let merged ← mergeInto l.table target ((List.range target).filter (· != v))
      pushPhrases l v symbol favour fuel (if merged then removed + 1 else removed) rest

/-- Reduces a production on the stack of a version. The versions that come of it are put behind the others; the first of
them is the result, if there is one. -/
def reduce (l : Language) (v production : Nat) : Step (Option Nat) := do
  let count := (← get).versions.size
  let p := l.table.production production
  let slices ← pop v p.parts.length
  pushPhrases l v p.symbol p.favour (slices.length + 1) 0 slices
  return if count < (← get).versions.size then some count else none

end Reading

end PackageExports.Grammar
