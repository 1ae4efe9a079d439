import PackageExports.Grammar.Production

/-!
# States of reading

A state says how far each of the productions under way has been read and which tokens may follow it. States are worked
out when they are first reached, and kept under a number. What can be done in a state at a token is to shift it, to
reduce a finished production, or to accept; more than one of these only where precedence does not decide.

Main definitions: `Item`, `State`, `Action`, `State.actions`, `Automaton.next`.
-/

namespace PackageExports.Grammar

/-- A production of which the first parts have been read. -/
structure Item where
  production : Nat
  read : Nat
deriving DecidableEq, Hashable

/-- Items that have been read equally far, each with the tokens that may follow its production. -/
structure State where
  /-- The items of which at least one part has been read, or which start the text. -/
  kernel : List (Item × TokenSet)
  /-- For each symbol that is no token, the tokens that may follow it if it can start here. -/
  expected : Array (Option TokenSet)
  /-- The tokens at which something can be done. -/
  tokens : TokenSet
deriving Inhabited

/-- What can be done at a token. -/
inductive Action where
  /-- To go on with the token; `again` if only a repetition would be read on. -/
  | shift (again : Bool)
  | reduce (production : Nat)
  | accept
deriving DecidableEq

namespace Table

/-- The production that says that the whole text is a phrase of the first category. -/
def whole (g : Table) : Production :=
  ⟨g.tokens + g.heads.size, [g.tokens], .plain, none, 0⟩

/-- A production by its number; the number after the last one is that of the whole text. -/
def production (g : Table) (i : Nat) : Production :=
  g.productions.getD i g.whole

def rest (g : Table) (item : Item) : List Nat :=
  (g.production item.production).parts.drop item.read

def start (g : Table) (symbol : Nat) : TokenSet :=
  startOf g.tokens g.starts symbol

/-- The tokens that may follow the first of some parts, if `tokens` may follow the last. -/
def follow (g : Table) (after : List Nat) (tokens : TokenSet) : TokenSet :=
  match after with
  | part :: _ => g.start part
  | [] => tokens

/-- Notes that a symbol can start here, and puts it on the agenda if anything is new. -/
def expect (g : Table) (symbol : Nat) (tokens : TokenSet) (found : Array (Option TokenSet) × List Nat) :
    Array (Option TokenSet) × List Nat :=
  if symbol < g.tokens then found
  else
    let i := symbol - g.tokens
    match found.1.getD i none with
    | none => (found.1.setIfInBounds i (some tokens), i :: found.2)
    | some known =>
      let all := known.union tokens
      if all == known then found else (found.1.setIfInBounds i (some all), i :: found.2)

/-- The symbols that can start where those found can, worked out in at most `fuel` steps. -/
def close (g : Table) : (fuel : Nat) → Array (Option TokenSet) × List Nat → Array (Option TokenSet)
  | 0, found => found.1
  | fuel + 1, (known, agenda) =>
    match agenda with
    | [] => known
    | i :: agenda =>
      let tokens := (known.getD i none).getD 0
      g.close fuel <| (g.heads.getD i []).foldl
        (fun found (head, after, last) => g.expect head (if last then after.union tokens else after) found)
        (known, agenda)

/-- The symbols that can start in a state with these items. -/
def expectedBy (g : Table) (kernel : List (Item × TokenSet)) : Array (Option TokenSet) :=
  g.close ((g.heads.size + 1) * (g.tokens + 1)) <| kernel.foldl
    (fun found (item, tokens) =>
      match g.rest item with
      | symbol :: after => g.expect symbol (g.follow after tokens) found
      | [] => found)
    (Array.replicate g.heads.size none, [])

def state (g : Table) (kernel : List (Item × TokenSet)) : State :=
  let expected := g.expectedBy kernel
  let ofKernel := kernel.foldl
    (fun s (item, tokens) =>
      match g.rest item with
      | symbol :: _ => if symbol < g.tokens then s.union (.single symbol) else s
      | [] => s.union tokens)
    0
  let shifted := expected.zipIdx.foldl
    (fun s (follow, i) => if follow.isSome then s.union (g.leads.getD i 0) else s)
    ofKernel
  { kernel, expected
    tokens := if kernel.any (·.1.read = 0) then shifted.union (.single 0) else shifted }

def initial (g : Table) : State :=
  g.state [(⟨g.productions.size, 0⟩, .single 0)]

/-- The item after some parts of a production. Productions that go on in the same way count as one. -/
def item (g : Table) (production read : Nat) : Item :=
  ⟨(g.alike.getD production #[]).getD read production, read⟩

def isBefore (a b : Item × TokenSet) : Bool :=
  a.1.read < b.1.read || (a.1.read == b.1.read && a.1.production ≤ b.1.production)

def after (g : Table) (s : State) (symbol : Nat) : List (Item × TokenSet) :=
  let started := s.expected.zipIdx.toList.flatMap fun (follow, i) =>
    match follow with
    | none => []
    | some follow =>
      match (g.grouped.getD i []).find? (·.1 == symbol) with
      | some (_, productions) => productions.map fun p => (g.item p 1, follow)
      | none => []
  let continued := s.kernel.filterMap fun (item, follow) =>
    match g.rest item with
    | part :: _ => if part = symbol then some (g.item item.production (item.read + 1), follow) else none
    | [] => none
  (started ++ continued).mergeSort isBefore

/-- Whether an entry of an order of precedence covers a clause of some symbols. -/
def covers (standing : Standing Nat) (p : Precedence) (symbols : List Nat) : Bool :=
  match standing with
  | .rank name => p = .rank name
  | .category c => symbols.contains c

/-- How two clauses compare in one order of precedence, which starts with the highest, if both are in it. -/
def compareIn (p : Precedence) (ps : List Nat) (q : Precedence) (qs : List Nat) :
    (sawFirst sawSecond : Bool) → List (Standing Nat) → Option Ordering
  | _, _, [] => none
  | sawFirst, sawSecond, standing :: order =>
    if covers standing p ps then
      if sawSecond then some .lt else compareIn p ps q qs true sawSecond order
    else if covers standing q qs then
      if sawFirst then some .gt else compareIn p ps q qs sawFirst true order
    else compareIn p ps q qs sawFirst sawSecond order

/-- How a clause of some symbols compares to another one: levels with each other, and otherwise by the first order of
precedence in which both stand. -/
def comparePrecedence (g : Table) (p : Precedence) (ps : List Nat) (q : Precedence) (qs : List Nat) : Ordering :=
  let level : Precedence → Option Int
    | .plain => some 0
    | .level n => some n
    | .rank _ => none
  let byOrder := (g.orders.findSome? (compareIn p ps q qs false false)).getD .eq
  match level p, level q with
  | some m, some n => if m = 0 ∧ n = 0 then byOrder else compare m n
  | _, _ => byOrder

end Table

/-- The productions that may be reduced, and what is known of their precedence together. -/
structure Reductions where
  productions : List Nat := []
  precedence : Precedence := .plain
  symbols : List Nat := []
  sides : List (Option Side) := []

namespace Reductions

/-- Adds a finished production: one of lower precedence does not count, one of higher precedence replaces the others. -/
def add (g : Table) (r : Reductions) (i : Nat) : Reductions :=
  let p := g.production i
  let alone : Reductions := ⟨[i], p.precedence, [p.symbol], [p.side]⟩
  if r.productions.isEmpty then alone
  else
    match g.comparePrecedence p.precedence [p.symbol] r.precedence r.symbols with
    | .gt => alone
    | .eq => ⟨r.productions ++ [i], p.precedence, p.symbol :: r.symbols, p.side :: r.sides⟩
    | .lt => r

/-- What is done with the reductions at a token. -/
def actions (g : Table) (r : Reductions) : List Action :=
  r.productions.map fun i => if i < g.productions.size then .reduce i else .accept

end Reductions

namespace State

/-- The finished productions of a state that a token may follow. -/
def reductions (g : Table) (s : State) (token : Nat) : Reductions :=
  s.kernel.foldl
    (fun r (item, follow) => if follow.has token && (g.rest item).isEmpty then r.add g item.production else r)
    {}

/-- The numbers of the productions under way for which a token would be read on. -/
def continued (g : Table) (s : State) (token : Nat) : List Nat :=
  s.kernel.filterMap fun (item, _) =>
    match g.rest item with
    | part :: _ => if 0 < item.read ∧ (g.start part).has token then some item.production else none
    | [] => none

/-- Whether a token is the next part of something under way or expected. -/
def shifts (g : Table) (s : State) (token : Nat) : Bool :=
  s.kernel.any (fun (item, _) => (g.rest item).head? == some token) ||
    s.expected.zipIdx.any fun (follow, i) => follow.isSome && (g.leads.getD i 0).has token

/-- Decides between reductions and reading on, both of which are possible. -/
def decideBetween (g : Table) (s : State) (token : Nat) (r : Reductions) : List Action :=
  let continued := s.continued g token
  let symbolOf (i : Nat) : Nat := (g.production i).symbol
  let involved := continued.map symbolOf ++ s.kernel.filterMap fun (item, follow) =>
    if follow.has token && (g.rest item).isEmpty then some (symbolOf item.production) else none
  let first := involved.headD 0
  if g.named ≤ first ∧ involved.all (· == first) then r.actions g ++ [.shift true]
  else
    let orderings := continued.map fun i =>
      g.comparePrecedence (g.production i).precedence [symbolOf i] r.precedence r.symbols
    let more := orderings.contains .gt
    let less := orderings.contains .lt
    if more && !less then [.shift false]
    else if less && !more then r.actions g
    else if more then r.actions g ++ [.shift false]
    else if r.sides.all (· == some .left) then r.actions g
    else if r.sides.all (· == some .right) then [.shift false]
    else r.actions g ++ [.shift false]

/-- What can be done in a state at a token: reductions come before reading on. -/
def actions (g : Table) (s : State) (token : Nat) : List Action :=
  if !s.tokens.has token then []
  else if token = 0 ∧ s.kernel.any (·.1.read = 0) then [.accept]
  else
    let r := s.reductions g token
    if !s.shifts g token then r.actions g
    else if r.productions.isEmpty then [.shift false]
    else s.decideBetween g token r

end State

/-- The states reached so far, by their numbers. -/
structure Automaton where
  states : Array State
  numbers : Std.HashMap (List (Item × TokenSet)) Nat
  moves : Std.HashMap (Nat × Nat) (Option Nat)

namespace Automaton

/-- Only the initial state, which has the number 0. -/
def start (g : Table) : Automaton :=
  { states := #[g.initial]
    numbers := Std.HashMap.insert {} g.initial.kernel 0
    moves := {} }

def state (a : Automaton) (n : Nat) : State :=
  a.states.getD n ⟨[], #[], 0⟩

/-- The number of the state of some items, which is worked out if it is new. -/
def number (g : Table) (a : Automaton) (kernel : List (Item × TokenSet)) : Automaton × Nat :=
  match a.numbers[kernel]? with
  | some n => (a, n)
  | none =>
    let n := a.states.size
    let ⟨states, numbers, moves⟩ := a
    (⟨states.push (g.state kernel), numbers.insert kernel n, moves⟩, n)

def next (g : Table) (a : Automaton) (n symbol : Nat) : Automaton × Option Nat :=
  match a.moves[(n, symbol)]? with
  | some target => (a, target)
  | none =>
    match g.after (a.state n) symbol with
    | [] => (a, none)
    | kernel =>
      let (⟨states, numbers, moves⟩, target) := number g a kernel
      (⟨states, numbers, moves.insert (n, symbol) (some target)⟩, some target)

end Automaton

end PackageExports.Grammar
