import PackageExports.Grammar.Reader
import PackageExports.Script.Implied
import PackageExports.Script.Rules.Class
import PackageExports.Script.Rules.Declaration
import PackageExports.Script.Rules.Element
import PackageExports.Script.Rules.Exchange
import PackageExports.Script.Rules.Expression
import PackageExports.Script.Rules.Pattern
import PackageExports.Script.Rules.Statement
import PackageExports.Script.Rules.TypeExpression

/-!
# The languages of scripts

The grammar of TypeScript, which covers JavaScript as well. A script is read either with elements, or without them; then
types in angle brackets may stand before expressions.

Main definitions: `definitions`, `Dialect`, `typed`, `withElements`.
-/

namespace PackageExports.Script

open Category
open Grammar (Automaton Clause Language Standing Table TokenSet)

def definitions (elements : Bool) : List Definition :=
  Rules.statements ++ Rules.branches ++ Rules.loops ++ Rules.jumps ++ Rules.exports ++ Rules.imports ++
    Rules.variableDeclarations ++ Rules.functions ++ Rules.namespaces ++ Rules.typeDeclarations ++
    Rules.expressionKinds elements ++ Rules.literals ++ Rules.accesses ++ Rules.operations ++
    Rules.functionExpressions ++ Rules.patterns ++ Rules.parameterLists ++ Rules.classes ++ Rules.members ++
    Rules.decorators ++ Rules.typeKinds ++ Rules.compositeTypes ++ Rules.tupleTypes ++ Rules.objectTypes ++
    Rules.queries ++ Rules.ascriptions ++ Rules.elements ++ Rules.attributes

instance : Coe String (Standing Category) :=
  ⟨.rank⟩

instance : Coe Category (Standing Category) :=
  ⟨.category⟩

/-- Orders of precedence among expressions and statements, highest first. -/
def valueOrders : List (List (Standing Category)) :=
  [
    ["member", "templateCall", "call", increment, "unaryVoid", "binaryExp", "binaryTimes", "binaryPlus", "binaryShift",
     "binaryCompare", "binaryRelation", "binaryEquality", "bitwiseAnd", "bitwiseXor", "bitwiseOr", "logicalAnd",
     "logicalOr", "ternary", sequence, arrowFunction],
    ["assign", primary],
    ["member", "templateCall", "new", "call", expression],
    ["declare", "literal"],
    [primary, block, "object"],
    [metaProperty, importWord],
    [importStatement, importWord],
    [exportStatement, primary],
    [lexicalDeclaration, primary]]

/-- Orders of precedence of types and of expressions with types. -/
def typedOrders : List (List (Standing Category)) :=
  [
    ["call", "instantiation", "unary", "binary", awaitExpression, arrowFunction],
    ["extends", "instantiation"],
    [intersectionType, unionType, conditionalType, functionType, "binary", typePredicate, readonlyType],
    [mappedTypeClause, primary],
    [accessModifier, primary],
    ["unaryVoid", expression],
    [extendsClause, primary],
    ["unary", "assign"],
    ["declare", expression],
    [predefinedType, unary],
    [typeExpression, maybeType],
    [tupleType, arrayType, pattern, typeExpression],
    [readonlyType, pattern],
    [readonlyType, primary]]

/-- Orders of precedence that tell types of expressions and of modules from other phrases. -/
def queryOrders : List (List (Standing Category)) :=
  [
    [typeQuery, subscript, expression],
    [typeQuery, querySubscript],
    [qualifiedTypeName, genericType, primaryType, lookupType, keyQuery, typeExpression],
    [asExpression, satisfiesExpression, primaryType],
    [queryMember, member],
    [queryMember, primary],
    [querySubscript, subscript],
    [querySubscript, primary],
    [queryCall, primary],
    [queryInstantiation, primary],
    [typeQuery, primary],
    [overrideModifier, primary],
    [decoratorCall, decorator],
    [literalType, pattern],
    [predefinedType, pattern],
    [call, queryCall],
    [call, importTypeCall],
    [newExpression, primary],
    [metaProperty, primary],
    [constructSignature, propertyName]]

/-- The orders of precedence, the first ones first. -/
def orders : List (List (Standing Category)) :=
  valueOrders ++ typedOrders ++ queryOrders

/-- The number of a category as a symbol: the tokens come first. -/
def Category.symbol (c : Category) : Nat :=
  Token.all.length + c.ctorIdx

/-- An entry of an order of precedence by the numbers of symbols. -/
def numberStanding : Standing Category → Standing Nat
  | .rank name => .rank name
  | .category c => .category c.symbol

/-- A clause by the numbers of symbols. -/
def numberClause (c : Clause Token Category) : Clause Nat Nat :=
  { c with rule := c.rule.map Token.index Category.symbol }

/-- The grammar of scripts with or without elements. -/
def grammar (elements : Bool) : Table :=
  let numbered := (definitions elements).map fun (category, clause) => (category.ctorIdx, numberClause clause)
  let categories := Grammar.firsts (numbered.map (·.1))
  let clauses := (List.range categories.length).map fun i =>
    numbered.filterMap fun (j, clause) => if i = j then some clause else none
  .ofNumbered Token.all.length clauses (orders.map fun order => order.map numberStanding)

/-- A language of scripts, ready for reading. -/
structure Dialect where
  language : Language
  start : Automaton

def tokenSet (f : Token → Bool) : TokenSet :=
  Token.all.zipIdx.foldl (fun s (t, i) => if f t then s.union (.single i) else s) 0

/-- The language of scripts with or without elements. -/
def language (elements : Bool) : Language :=
  let table := grammar elements
  let categories := (List.range (table.named - table.tokens)).map Category.ofNat
  let shown := (Token.all.map (!·.isHidden) ++ categories.map (!·.isHidden)).toArray
  { table
    isShown := fun symbol => symbol == table.confusion || shown.getD symbol false
    extras := tokenSet fun t => t = .comment ∨ t = .markupComment
    word := wordIndex
    implied? := impliedLexeme?
    lexeme? := lexeme?
    anything := tokenSet Token.isLandmark
    isSpace := Written.isSpace }

/-- The language of scripts with or without elements, ready for reading. -/
def dialect (elements : Bool) : Dialect :=
  let language := language elements
  ⟨language, .start language.table⟩

/-- Scripts in which types may stand in angle brackets before expressions. -/
def typed : Dialect :=
  dialect false

/-- Scripts with elements. -/
def withElements : Dialect :=
  dialect true

end PackageExports.Script
