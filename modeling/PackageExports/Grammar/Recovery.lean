import PackageExports.Grammar.Reduction

/-!
# Reading on after errors

A version that cannot read a token first waits. If no version can go on, it reduces whatever can be reduced, tries
whether a missing token would help, and gets lost. A lost version goes back to a stage from which the token can be read,
if that is cheap enough, and otherwise passes over the token. What it passed over is confusion: a tree that may stand
anywhere and has a cost. A version is only followed as long as no better one is known.

Main definitions: `Preference`, `Reading.reduceAhead`, `Reading.recover`, `Reading.getLost`.
-/

namespace PackageExports.Grammar

/-- What counts when versions are compared. -/
structure Merit where
  cost : Nat
  progress : Nat
  favour : Int
  isLost : Bool

/-- Which one of two versions is preferred, and whether the other one is not worth following. -/
inductive Preference where
  | onlyFirst
  | first
  | neither
  | second
  | onlySecond
deriving DecidableEq

/-- How much more a version may cost than another one that has read nothing since it got lost. -/
def mostCostAhead : Nat :=
  18 * prices.skippedTree

/-- How two versions compare. -/
def Merit.compare (a b : Merit) : Preference :=
  if !a.isLost && b.isLost then if a.cost < b.cost then .onlyFirst else .first
  else if a.isLost && !b.isLost then if b.cost < a.cost then .onlySecond else .second
  else if a.cost < b.cost then
    if mostCostAhead < (b.cost - a.cost) * (1 + a.progress) then .onlyFirst else .first
  else if b.cost < a.cost then
    if mostCostAhead < (a.cost - b.cost) * (1 + b.progress) then .onlySecond else .second
  else if b.favour < a.favour then .first
  else if a.favour < b.favour then .second
  else .neither

namespace Reading

def merit (v : Nat) : Step Merit := do
  let progress ← progress v
  let r ← get
  let isWaiting := (r.version v).status.isWaiting
  return {
    cost := r.cost v + if isWaiting then prices.skippedTree else 0
    progress
    favour := (r.top v).favour
    isLost := isWaiting || r.stage v == .lost }

/-- Whether some of other versions, or a finished tree, is better than a version would be at some cost. -/
def isBeaten (v cost : Nat) : Step Bool := do
  if (← get).finished.any (·.root.cost ≤ cost) then return true
  let progress ← progress v
  let r ← get
  let top := r.top v
  let rivals := (List.range r.versions.size).filter fun w =>
    w != v && (r.version w).status.isActive && top.place.offset ≤ (r.top w).place.offset
  rivals.anyM fun w => do
    match Merit.compare ⟨cost, progress, top.favour, false⟩ (← merit w) with
    | .onlySecond => return true
    | .second => return (← get).canMerge w v
    | _ => return false

/-- The tree for the whole text that is made up of all trees on a stack: the last one that is no extra is the phrase
that the others belong to. -/
def wholeTree (l : Language) (trees : List Tree) : Tree :=
  let (trees, extras) := Tree.splitExtras trees
  let (symbol, parts) : Nat × List Tree :=
    match trees.getLast? with
    | some t => (t.root.symbol, trees.dropLast ++ t.parts ++ extras)
    | none => (l.table.tokens, extras)
  .phrase l.table true symbol parts (.ofText [])

/-- Ends a version with the end of the text, and keeps its tree if it is the best one. -/
def accept (l : Language) (v : Nat) (token : Tree) : Step Unit := do
  push l.table v (some token) .done
  let r ← get
  let slices ← popWhere v fun path => (r.nodes.getD path.node default).links.isEmpty
  let better (best : Option Tree) (t : Tree) : Option Tree :=
    match best with
    | some old => if old.isWorse t then some t else best
    | none => some t
  modify fun r =>
    { r with
      finished := (slices.map fun slice => wholeTree l slice.2).foldl better r.finished
      found := r.found + 1 }
  slices.head?.forM fun slice => removeVersion slice.1
  giveUp v

/-- The stage after a token that can be shifted. -/
def shiftedTo (l : Language) (stage : Stage) (token : Nat) : Step (Option Stage) := do
  match ((← get).actions l stage token).getLast? with
  | some (.shift _) => next l stage token
  | _ => return none

/-- The productions that can be reduced where a version stands, at a token or at any one, and whether anything else can
be done. Productions for the same symbol with equally many parts count as one. -/
def reducible (l : Language) (r : Reading) (v : Nat) (token : Option Nat) : List Nat × Bool :=
  let stage := r.stage v
  let tokens :=
    match token with
    | some t => [t]
    | none => ((List.range l.table.tokens).drop 1).filter (r.tokens stage).has
  let actions := tokens.flatMap (r.actions l stage)
  let isSame (i j : Nat) : Bool :=
    let p := l.table.production i
    let q := l.table.production j
    p.symbol == q.symbol && p.parts.length == q.parts.length
  let productions := actions.foldl
    (fun found action =>
      match action with
      | .reduce i => if found.any (isSame i) then found else found ++ [i]
      | _ => found)
    []
  (productions, stage == .lost || actions.contains (.shift false))

/-- Reduces what can be reduced on the stacks of version `v` and of the versions from `first` on, at a token or at any
one. With a token, only versions that can go on with it are kept. The result is whether any can. -/
def reduceAhead (l : Language) (token : Option Nat) (start first : Nat) :
    (fuel round v : Nat) → (canGoOn : Bool) → Step Bool
  | 0, _, _, canGoOn => return canGoOn
  | fuel + 1, round, v, canGoOn => do
    let count := (← get).versions.size
    if count ≤ v then return canGoOn
    let earlier := (List.range v).filter (first ≤ ·)
    if ← mergeInto l.table v earlier then
      reduceAhead l token start first fuel (round + 1) v canGoOn
    else
      let (productions, canShift) := reducible l (← get) v token
      let last ← productions.foldlM (fun _ i => reduce l v i) none
      let after := if v = start then count else v + 1
      if canShift then reduceAhead l token start first fuel (round + 1) after true
      else
        match last with
        | some w =>
          if round < mostVersions then
            replaceVersion w v
            reduceAhead l token start first fuel (round + 1) v canGoOn
          else
            if token.isSome then removeVersion v
            reduceAhead l token start first fuel (round + 1) after canGoOn
        | none =>
          if token.isSome then removeVersion v
          reduceAhead l token start first fuel (round + 1) after canGoOn

/-- Reduces what can be reduced from version `v` on, with the end of the text as with any token; see `reduceAhead`. -/
def reduceAll (l : Language) (token : Option Nat) (v : Nat) : Step Bool := do
  let token := token.filter (0 < ·)
  let r ← get
  reduceAhead l token v r.versions.size (64 * (r.nodes.size + r.versions.size)) 0 v false

/-- Adds a version with one of some missing tokens, after which the next token can be read. -/
def insertMissing (l : Language) (v : Nat) (token : Tree) : (missing : List Nat) → Step Bool
  | [] => return false
  | t :: others => do
    let stage := (← get).stage v
    match ← shiftedTo l stage t with
    | none => insertMissing l v token others
    | some target =>
      let r ← get
      let reduces := (r.actions l target token.root.symbol).any fun a => a matches .reduce _
      if target = stage ∨ !reduces then insertMissing l v token others
      else
        let w := r.versions.size
        let version := { r.version v with landmarks := none }
        modify fun r => { r with versions := r.versions.push version }
        let place := (r.top v).place
        let leaf : Tree :=
          .node { symbol := t, before := place, start := place, stop := place, isShown := l.isShown t,
                  cost := prices.missing + prices.recovery } []
        push l.table w (some leaf) target
        if ← reduceAll l (some token.root.symbol) w then return true
        else insertMissing l v token others

/-- How many trees below the place where a version gets lost its landmarks are looked for. -/
def mostDepth : Nat := 16

def landmarks (r : Reading) (v : Nat) : List Landmark :=
  let paths := r.paths (fun path => mostDepth < path.count) (r.nodes.size + 1) [{ node := (r.version v).node }]
  let found := (paths.filter (·.count ≤ mostDepth)).foldl
    (fun (found : List Landmark) path =>
      let node := r.nodes.getD path.node default
      let isKnown (m : Landmark) : Bool := m.depth == path.count && m.stage == node.stage
      if (found.takeWhile (path.count ≤ ·.depth)).any isKnown then found
      else ⟨node.stage, node.place, path.count⟩ :: found)
    []
  found.reverse

/-- Puts the trees that were taken off a stack back as confusion, for each way in which they were taken off that led to
a stage. The result is whether there is one. -/
def putBack (l : Language) (goal : Stage) : (last : Option Nat) → List (Nat × List Tree) → Step Bool
  | last, [] => return last.isSome
  | last, (w, trees) :: rest => do
    let r ← get
    if last = some w then putBack l goal last rest
    else if r.stage w ≠ goal then
      giveUp w
      putBack l goal last rest
    else
      let isConfusion (t : Tree) : Bool := t.root.symbol = l.table.confusion
      let trees ←
        match (r.top w).links.find? (·.tree.any isConfusion) with
        | some ⟨node, some t⟩ =>
          changeVersion w fun version => { version with node }
          pure (t.parts ++ trees)
        | _ => pure trees
      let (parts, extras) := Tree.splitExtras trees
      if !parts.isEmpty then
        let confusion : Tree := .phrase l.table true l.table.confusion parts (r.top w).place
        push l.table w (some confusion.asExtra) goal
      extras.forM fun t => push l.table w (some t) goal
      putBack l goal (some w) rest

/-- Goes back to the first of some landmarks at which a token can be read. The result is whether there is one. -/
def goBack (l : Language) (v : Nat) (token : Tree) (others cost : Nat) (hasProgress : Bool) :
    List Landmark → Step Bool
  | [] => return false
  | m :: rest => do
    let r ← get
    let place := (r.top v).place
    let isTaken (w : Nat) : Bool := r.stage w == m.stage && (r.top w).place.offset == place.offset
    if m.stage = .lost ∨ m.place.offset = place.offset ∨ (List.range others).any isTaken then
      goBack l v token others cost hasProgress rest
    else
      let skipped := prices.skippedTree * m.depth + prices.skippedByte * (place.bytes - m.place.bytes) +
        prices.skippedLine * (place.row - m.place.row)
      if ← isBeaten v (cost + skipped) then return false
      if (← get).accepts l m.stage token.root.symbol then
        let slices ← pop v (if hasProgress then m.depth + 1 else m.depth)
        if ← putBack l m.stage none slices then return true
      goBack l v token others cost hasProgress rest

/-- Makes a lost version pass over a token. -/
def skipToken (l : Language) (v : Nat) (token : Tree) (cost : Nat) (hasProgress : Bool) : Step Unit := do
  let start := token.root.before
  let stop := token.root.stop
  let skipped := prices.skippedTree + prices.skippedByte * (stop.bytes - start.bytes) +
    prices.skippedLine * (stop.row - start.row)
  if ← isBeaten v (cost + skipped) then giveUp v
  else
    let token := if l.extras.has token.root.symbol then token.asExtra else token
    let piece (trees : List Tree) : Tree := .phrase l.table false l.table.confusionPiece trees start
    let skippedTree ←
      if hasProgress then
        match ← pop v 1 with
        | (w, trees) :: _ =>
          modify fun r => { r with versions := r.versions.take (w + 1) }
          replaceVersion w v
          pure (piece (trees ++ [piece [token]]))
        | [] => pure (piece [token])
      else pure (piece [token])
    push l.table v (some skippedTree) .lost

def removeInactive (first : Nat) : Step Unit :=
  modify fun r =>
    { r with versions := r.versions.take first ++ (r.versions.drop first).filter (·.status.isActive) }

/-- Goes on with a lost version at a token. -/
def recover (l : Language) (v : Nat) (token : Tree) : Step Unit := do
  let progress ← progress v
  let r ← get
  let others := r.versions.size
  let cost := r.cost v
  let landmarks := if token.root.symbol = l.table.confusion then [] else ((r.version v).landmarks).getD []
  let wentBack ← goBack l v token others cost (0 < progress) landmarks
  removeInactive others
  if wentBack ∧ mostVersions < (← get).versions.size then giveUp v
  else if token.root.symbol = 0 then
    let confusion : Tree := .phrase l.table true l.table.confusion [] (r.top v).place
    push l.table v (some confusion) .lost
    accept l v token
  else skipToken l v token cost (0 < progress)

/-- Makes versions lost, after one of them at most got a version beside it with a missing token. -/
def leave (l : Language) (token : Tree) : (hasInserted : Bool) → List Nat → Step Unit
  | _, [] => return
  | hasInserted, v :: others => do
    let hasInserted ←
      if hasInserted then pure true
      else
        let r ← get
        insertMissing l v token (((List.range l.table.tokens).drop 1).filter (r.tokens (r.stage v)).has)
    push l.table v none .lost
    leave l token hasInserted others

/-- Lets a version get lost at a token that it cannot read, with whatever can be reduced. -/
def getLost (l : Language) (v : Nat) (token : Tree) : Step Unit := do
  let first := (← get).versions.size
  let _ ← reduceAll l none v
  let count := (← get).versions.size
  leave l token false (v :: (List.range count).drop first)
  (List.range (count - first)).forM fun _ => do
    let _ ← merge l.table v first
  let found := (← get).landmarks v
  changeVersion v fun version => { version with landmarks := some found }
  recover l v token

end Reading

end PackageExports.Grammar
