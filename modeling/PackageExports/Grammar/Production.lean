import Std.Data.HashMap
import PackageExports.Grammar.Rule

/-!
# Productions

The clauses of a grammar written out as productions, without choices and repetitions. Tokens, categories and repeated
rules are numbered as symbols: first the tokens, then the categories, then the repetitions. A repetition `r` has the
productions `r r` and those of the repeated rule.

Main definitions: `Production`, `Table`, `Table.ofNumbered`.
-/

namespace PackageExports.Grammar

/-- A set of tokens, as the number whose binary digits say which belong to it. -/
abbrev TokenSet := Nat

namespace TokenSet

def single (token : Nat) : TokenSet :=
  Nat.shiftLeft 1 token

def has (s : TokenSet) (token : Nat) : Bool :=
  Nat.testBit s token

def union (s t : TokenSet) : TokenSet :=
  Nat.lor s t

def meets (s t : TokenSet) : Bool :=
  Nat.land s t != 0

end TokenSet

/-- One way to make up a phrase from symbols. -/
structure Production where
  symbol : Nat
  parts : List Nat
  precedence : Precedence
  side : Option Side
  favour : Int
deriving DecidableEq, Hashable

/-- A grammar ready for reading. The arrays over symbols start at the first category. -/
structure Table where
  /-- How many tokens there are; token 0 is the end of the text. -/
  tokens : Nat
  /-- How many symbols there are that are not repetitions. -/
  named : Nat
  productions : Array Production
  /-- For each production and number of parts that have been read, the first production that goes on in the same way. -/
  alike : Array (Array Nat)
  /-- The productions of a symbol, grouped by their first parts. -/
  grouped : Array (List (Nat × List Nat))
  /-- The tokens with which a phrase of a symbol may start. -/
  starts : Array TokenSet
  /-- The tokens with which the productions of a symbol start directly. -/
  leads : Array TokenSet
  /-- The symbols, no tokens, with which the productions of a symbol start: with the tokens that may follow by what is
  next in the productions, and whether all may that may follow the productions. -/
  heads : Array (List (Nat × TokenSet × Bool))
  orders : List (List (Standing Nat))

namespace Rule

/-- The sequences of symbols that a rule stands for. -/
def alternatives (number : Rule Nat Nat → Nat) : Rule Nat Nat → List (List Nat)
  | token t => [[t]]
  | category c => [[c]]
  | nothing => [[]]
  | sequence a b => (a.alternatives number).flatMap fun x => (b.alternatives number).map (x ++ ·)
  | choice a b => a.alternatives number ++ b.alternatives number
  | repetition r => [[number r]]

end Rule

/-- A list without its later repetitions. -/
def firsts {α : Type} [BEq α] [Hashable α] (xs : List α) : List α :=
  (xs.foldl
    (fun (kept, seen) x => if seen.contains x then (kept, seen) else (x :: kept, seen.insert x ()))
    (([] : List α), ({} : Std.HashMap α Unit))).1.reverse

namespace Table

/-- Items with the same first part brought together, in the order of first occurrence. -/
def group (entries : List (Nat × Nat)) : List (Nat × List Nat) :=
  (firsts (entries.map (·.1))).map fun head => (head, (entries.filter (·.1 == head)).map (·.2))

def startOf (tokens : Nat) (starts : Array TokenSet) (symbol : Nat) : TokenSet :=
  if symbol < tokens then .single symbol else starts.getD (symbol - tokens) 0

/-- One round of finding the tokens with which phrases start. -/
def startRound (tokens : Nat) (productions : Array Production) (starts : Array TokenSet) : Array TokenSet :=
  productions.foldl
    (fun starts p =>
      match p.parts with
      | [] => starts
      | part :: _ => starts.modify (p.symbol - tokens) fun s => s.union (startOf tokens starts part))
    starts

/-- The tokens with which phrases start, after at most `fuel` rounds. -/
def allStarts (tokens : Nat) (productions : Array Production) : (fuel : Nat) → Array TokenSet → Array TokenSet
  | 0, starts => starts
  | fuel + 1, starts =>
    let next := startRound tokens productions starts
    if next == starts then starts else allStarts tokens productions fuel next

def leadOf (tokens : Nat) (firstParts : List Nat) : TokenSet :=
  firstParts.foldl (fun s part => if part < tokens then s.union (.single part) else s) 0

/-- What a first part and what comes next in a production add to the heads of its symbol. -/
def headOf? (tokens : Nat) (starts : Array TokenSet) (parts : List Nat) : Option (Nat × TokenSet × Bool) :=
  match parts with
  | [] => none
  | head :: after =>
    if head < tokens then none
    else
      match after with
      | [] => some (head, 0, true)
      | next :: _ => some (head, startOf tokens starts next, false)

/-- Heads that are the same symbol brought together. -/
def mergeHeads (heads : List (Nat × TokenSet × Bool)) : List (Nat × TokenSet × Bool) :=
  (firsts (heads.map (·.1))).map fun head =>
    let same := heads.filter (·.1 == head)
    (head, same.foldl (fun s h => s.union h.2.1) 0, same.any (·.2.2))

/-- What is left of a production after some parts, and how many these are. -/
def remainder (p : Production) (read : Nat) : Production × Nat :=
  ({ p with parts := p.parts.drop read }, read)

/-- For each production and number of parts, the first production of which the same is left. -/
def alikeOf (productions : Array Production) : Array (Array Nat) :=
  let note (i : Nat) (found : Array Nat × Std.HashMap (Production × Nat) Nat) (key : Production × Nat) :
      Array Nat × Std.HashMap (Production × Nat) Nat :=
    match found.2[key]? with
    | some first => (found.1.push first, found.2)
    | none => (found.1.push i, found.2.insert key i)
  (productions.toList.zipIdx.foldl
    (fun (all, known) (p, i) =>
      let (own, known) := ((List.range (p.parts.length + 1)).map (remainder p)).foldl (note i) (#[], known)
      (all.push own, known))
    ((#[] : Array (Array Nat)), ({} : Std.HashMap (Production × Nat) Nat))).1

def productionsOf (number : Rule Nat Nat → Nat) (symbol : Nat) (clauses : List (Clause Nat Nat)) :
    List Production :=
  clauses.flatMap fun c =>
    (firsts (c.rule.alternatives number)).map fun parts => ⟨symbol, parts, c.precedence, c.side, c.favour⟩

/-- The table of numbered clauses: `clauses` has those of each category, in the order of the categories. -/
def ofNumbered (tokens : Nat) (clauses : List (List (Clause Nat Nat))) (orders : List (List (Standing Nat))) :
    Table :=
  let named := tokens + clauses.length
  let repeated := firsts (clauses.flatMap fun cs => cs.flatMap fun c => c.rule.repeated)
  let number (r : Rule Nat Nat) : Nat := named + repeated.idxOf r
  let ofCategories := (clauses.zipIdx tokens).flatMap fun (cs, symbol) => productionsOf number symbol cs
  let ofRepetitions := (repeated.zipIdx named).flatMap fun (r, symbol) =>
    productionsOf number symbol [{ rule := .sequence (.repetition r) (.repetition r) }, { rule := r }]
  let productions := (ofCategories ++ ofRepetitions).toArray
  let count := clauses.length + repeated.length
  let starts := allStarts tokens productions count (Array.replicate count 0)
  let ofSymbols : Array (List (Nat × List Nat)) :=
    (productions.toList.zipIdx).foldr
      (fun (p, i) found => found.modify (p.symbol - tokens) ((i, p.parts) :: ·))
      (Array.replicate count [])
  { tokens, named, productions, starts, orders
    alike := alikeOf productions
    grouped := ofSymbols.map fun own => group (own.filterMap fun (i, parts) => parts.head?.map (·, i))
    leads := ofSymbols.map fun own => leadOf tokens (own.filterMap (·.2.head?))
    heads := ofSymbols.map fun own => mergeHeads (own.filterMap fun (_, parts) => headOf? tokens starts parts) }

end Table

end PackageExports.Grammar
