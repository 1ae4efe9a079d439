import PackageExports.Script.Language
import PackageExports.Script.Node

/-!
# Reading scripts

A source is read into a syntax tree. Phrases that only bring others together are no nodes: what they consist of belongs
to the phrase around them. The clause that names the module of an import or export is a node all the same.

Main definition: `read`.
-/

namespace PackageExports.Script

open Grammar (Language Place Tree)

/-- What a symbol is if it stands for a node. -/
def kind? (l : Language) (symbol : Nat) : Option Kind :=
  if symbol = l.table.confusion then some .confusion
  else if symbol < l.table.tokens then
    let token := Token.all.getD symbol .endOfText
    if token.isHidden then none else some (.token token)
  else if symbol < l.table.named then
    let category := Category.ofNat (symbol - l.table.tokens)
    if category.isHidden ∧ category ≠ .fromClause then none else some (.phrase category)
  else none

mutual

/-- The node of a tree, or the nodes of its parts if it is none. -/
def nodesOf (l : Language) : Tree → List Node
  | .node root parts =>
    match kind? l root.symbol with
    | some kind => [.node kind (root.start.textTo root.stop) (nodesOfAll l parts)]
    | none => nodesOfAll l parts
termination_by structural t => t

def nodesOfAll (l : Language) : List Tree → List Node
  | [] => []
  | t :: rest => nodesOf l t ++ nodesOfAll l rest
termination_by structural ts => ts

end

/-- The place where a script starts: a mark of the order of bytes is passed over. -/
def startOf (source : Text) : Place :=
  let place := Place.ofText source
  if source.head?.any (·.val == 0xFEFF) then place.advance 1 else place

/-- The syntax tree of a source, as the only one of a list. -/
def read (d : Dialect) (source : Text) : List Node :=
  match d.language.read? d.start (startOf source) with
  | some tree => nodesOf d.language tree
  | none => []

end PackageExports.Script
