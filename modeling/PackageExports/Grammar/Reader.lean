import PackageExports.Grammar.Recovery

/-!
# Reading a text

The versions of a reading take turns: each reads a token, then those that are not worth following are given up and like
ones are merged. The reading ends when no version is left, or none that could become better than the best tree found.

Main definitions: `Reading.advance`, `Reading.condense`, `Language.read?`.
-/

namespace PackageExports.Grammar

namespace Tree

def ofLexeme (l : Language) (before : Place) (x : Lexeme) : Tree :=
  .node { symbol := x.token, before, start := x.start, stop := x.stop, isShown := l.isShown x.token,
          isExtra := x.token == 0, isKeyword := x.isKeyword } []

end Tree

namespace Reading

/-- Whether anything has been read from a stack node on downwards since the reading got lost last, as far as it can be
told from the first links. -/
def hasRead (r : Reading) (sizeWhenLost : Nat) : (fuel : Nat) → (n : Nat) → Bool
  | 0, _ => false
  | fuel + 1, n =>
    let node := r.nodes.getD n default
    match node.links with
    | ⟨below, some t⟩ :: _ =>
      t.root.before.offset < t.root.stop.offset ||
        (sizeWhenLost < node.size && t.root.cost == 0 && hasRead r sizeWhenLost fuel below)
    | _ => false

/-- Whether a version has read anything since it got lost last. -/
def hasAdvanced (r : Reading) (v : Nat) : Bool :=
  (r.top v).cost == 0 || r.hasRead (r.version v).sizeWhenLost (r.nodes.size + 1) (r.version v).node

/-- The place of the next token after some code points that are passed over, at least one of them; `count` are left. -/
def skipUnknown (l : Language) : (count : Nat) → Place → Place
  | 0, place => place
  | count + 1, place =>
    let place := place.advance 1
    if (l.lexeme? l.anything place).isSome then place else skipUnknown l count place

/-- The next token of a version. One that is found by what is around it and takes no text counts only if text has been
read since the version got lost. Code points with which no token starts make up a piece of confusion. -/
def token (l : Language) (r : Reading) (v : Nat) : Tree :=
  let place := (r.top v).place
  let stage := r.stage v
  let known : Option Lexeme :=
    if stage = .lost then none
    else
      let tokens := (r.tokens stage).union l.extras
      let isPossible (x : Lexeme) : Bool := place.offset < x.stop.offset || r.hasAdvanced v
      (l.implied? tokens place).filter isPossible <|> l.lexeme? tokens place
  match known <|> l.lexeme? l.anything place with
  | some x => .ofLexeme l place x
  | none =>
    let start := place.skip l.isSpace
    .ofLexeme l place ⟨l.table.confusion, start, skipUnknown l start.rest.length start, false⟩

/-- What came of the things that could be done at a token. -/
inductive Outcome where
  | finished
  /-- A production was reduced; the version is the last one that came of it. -/
  | reduced (v : Nat)
  | nothing

/-- Does what can be done at a token: all reductions, and a shift last. -/
def perform (l : Language) (v : Nat) (token : Tree) : (last : Outcome) → List Action → Step Outcome
  | last, [] => return last
  | last, action :: others => do
    match action with
    | .shift again =>
      if again then return last
      let stage ← next l ((← get).stage v) token.root.symbol
      push l.table v (some token) (stage.getD .lost)
      return .finished
    | .reduce i =>
      match ← reduce l v i with
      | some w => perform l v token (.reduced w) others
      | none => perform l v token last others
    | .accept =>
      accept l v token
      return .finished

/-- Reads on with a token where a version stands, until the token is shifted or the version waits. -/
def readToken (l : Language) (v : Nat) : (fuel : Nat) → (token : Tree) → Step Unit
  | 0, _ => giveUp v
  | fuel + 1, token => do
    let r ← get
    let stage := r.stage v
    let symbol := token.root.symbol
    if stage = .lost then recover l v token
    else
      let actions := r.actions l stage symbol
      if actions.isEmpty && l.extras.has symbol then push l.table v (some token.asExtra) stage
      else
        match ← perform l v token .nothing actions with
        | .finished => return
        | .reduced w =>
          replaceVersion w v
          readToken l v fuel token
        | .nothing =>
          if token.root.isKeyword && symbol != l.word && (← get).accepts l stage l.word then
            readToken l v fuel (token.modify fun root => { root with symbol := l.word })
          else changeVersion v fun version => { version with status := .waiting token }

def advance (l : Language) (v : Nat) : Step Unit := do
  let r ← get
  readToken l v (16 * (r.nodes.size + 16)) (r.token l v)

/-- Reads tokens of a version until it stops or has come further than `last`. The result is how far the reading came. -/
def advanceBeyond (l : Language) (v : Nat) : (fuel last : Nat) → Step Nat
  | 0, last => return last
  | fuel + 1, last => do
    if ((← get).version v).status.isActive then
      advance l v
      let offset := ((← get).top v).place.offset
      -- every version but the first stops where those before it have come
      if last < offset ∨ 0 < v ∧ offset = last then return offset
      advanceBeyond l v fuel last
    else return last

def takeTurns (l : Language) : (fuel v last : Nat) → Step Nat
  | 0, _, last => return last
  | fuel + 1, v, last => do
    if v < (← get).versions.size then
      let last ← advanceBeyond l v fuel last
      takeTurns l fuel (v + 1) last
    else return last

/-- Compares version `w`, which had a merit, with those before it from `v` on. The result is whether it is still there,
and how many there are before it. -/
def settle (g : Table) (own : Merit) : (fuel v w : Nat) → Step (Bool × Nat)
  | 0, _, w => return (true, w)
  | fuel + 1, v, w => do
    if w ≤ v then return (true, w)
    match (← merit v).compare own with
    | .onlyFirst =>
      removeVersion w
      return (false, w)
    | .first | .neither =>
      if ← merge g v w then return (false, w)
      settle g own fuel (v + 1) w
    | .second =>
      if ← merge g v w then return (false, w)
      modify fun r => { r with versions := r.versions.swapIfInBounds v w }
      settle g own fuel (v + 1) w
    | .onlySecond =>
      removeVersion v
      settle g own fuel v (w - 1)

/-- Gives up and merges versions from `v` on. `least` is the least cost of a version that is not lost. -/
def sift (g : Table) : (fuel v : Nat) → (least : Option Nat) → Step (Option Nat)
  | 0, _, least => return least
  | fuel + 1, v, least => do
    let r ← get
    if r.versions.size ≤ v then return least
    if (r.version v).status.isOver then
      removeVersion v
      sift g fuel v least
    else
      let merit ← merit v
      let least := if merit.isLost then least else some (min merit.cost (least.getD merit.cost))
      let (isKept, before) ← settle g merit (r.versions.size + 1) 0 v
      sift g fuel (if isKept then before + 1 else before) least

/-- Lets the first version that waits get lost, if none before it can go on, and gives up the others that wait. `left`
versions have not been looked at. -/
def wake (l : Language) : (left v : Nat) → (isAwake : Bool) → (least : Option Nat) → Step (Option Nat)
  | 0, _, _, least => return least
  | left + 1, v, isAwake, least => do
    let r ← get
    match (r.version v).status with
    | .waiting token =>
      if !isAwake && r.found < mostVersions then
        let cost := r.cost v
        changeVersion v fun version => { version with status := .active }
        getLost l v token
        wake l left (v + 1) true (some cost)
      else
        removeVersion v
        wake l left v isAwake least
    | _ => wake l left (v + 1) true least

/-- Gives up versions that are not worth following and merges like ones. The result is the least cost with which a
version can go on. -/
def condense (l : Language) : Step (Option Nat) := do
  let least ← sift l.table (2 * (← get).versions.size + 1) 0 none
  modify fun r => { r with versions := r.versions.take mostVersions }
  wake l (← get).versions.size 0 false least

/-- Reads on in at most `fuel` rounds, after the reading came as far as `last`. -/
def finish (l : Language) : (fuel last : Nat) → Step Unit
  | 0, _ => return
  | fuel + 1, last => do
    let last ← takeTurns l fuel 0 last
    let least ← condense l
    let r ← get
    let isFinal (t : Tree) : Bool := least.all (t.root.cost < ·)
    if r.finished.any isFinal || r.versions.isEmpty then return
    finish l fuel last

end Reading

namespace Language

/-- The tree of the text from a place on. A round reads a token or takes a step of recovery, so that the length of the
text bounds the number of rounds. -/
def read? (l : Language) (start : Automaton) (place : Place) : Option Tree :=
  let reading : Reading :=
    { automaton := start
      nodes := #[{ stage := .state 0, place }]
      versions := #[{ node := 0 }] }
  ((Reading.finish l (64 * (place.rest.length + 16)) 0).run reading).2.finished

end Language

end PackageExports.Grammar
