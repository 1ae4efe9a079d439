/-!
# Rules of a grammar

A grammar says of each category of phrases how they are made up from tokens and other phrases. A category has clauses,
and each clause a rule. Where a text can be read on in two ways, the precedence of the clauses concerned decides, and
between equals the side to which a clause leans; where neither decides, both ways are followed, and the one with the
greater favour is kept if they meet again.

Main definitions: `Rule`, `Clause`, `Standing`.
-/

namespace PackageExports.Grammar

/-- A pattern of tokens and categories. -/
inductive Rule (τ κ : Type) where
  | token (t : τ)
  | category (c : κ)
  | nothing
  | sequence (first second : Rule τ κ)
  | choice (first second : Rule τ κ)
  /-- One or more times the same rule. -/
  | repetition (r : Rule τ κ)
deriving DecidableEq, Hashable

namespace Rule

variable {τ κ σ μ : Type}

def seq : List (Rule τ κ) → Rule τ κ
  | [] => .nothing
  | [r] => r
  | r :: rest => .sequence r (seq rest)

def oneOf : List (Rule τ κ) → Rule τ κ
  | [] => .nothing
  | [r] => r
  | r :: rest => .choice r (oneOf rest)

def opt (r : Rule τ κ) : Rule τ κ :=
  .choice r .nothing

def many (r : Rule τ κ) : Rule τ κ :=
  opt (.repetition r)

def separated (separator r : Rule τ κ) : Rule τ κ :=
  .sequence r (many (.sequence separator r))

def map (f : τ → σ) (g : κ → μ) : Rule τ κ → Rule σ μ
  | token t => .token (f t)
  | category c => .category (g c)
  | nothing => .nothing
  | sequence a b => .sequence (a.map f g) (b.map f g)
  | choice a b => .choice (a.map f g) (b.map f g)
  | repetition r => .repetition (r.map f g)

/-- The rules that are repeated within a rule, inner ones first. -/
def repeated : Rule τ κ → List (Rule τ κ)
  | token _ | category _ | nothing => []
  | sequence a b | choice a b => a.repeated ++ b.repeated
  | repetition r => r.repeated ++ [r]

end Rule

/-- The rank of a clause against others. -/
inductive Precedence where
  | plain
  | level (n : Int)
  | rank (name : String)
deriving DecidableEq, Hashable

/-- The side to which a clause leans: with `left`, a finished phrase is not read on, with `right` it is. -/
inductive Side where
  | left
  | right
deriving DecidableEq, Hashable

/-- An entry in an order of precedence: all clauses of a rank or all of a category. -/
inductive Standing (κ : Type) where
  | rank (name : String)
  | category (c : κ)
deriving DecidableEq

/-- One way to make up the phrases of a category. -/
structure Clause (τ κ : Type) where
  rule : Rule τ κ
  precedence : Precedence := .plain
  side : Option Side := none
  favour : Int := 0

end PackageExports.Grammar
