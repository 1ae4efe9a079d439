import PackageExports.Script.Phrase

/-!
# Expressions

What has a value. A script may allow elements among its expressions, or types in angle brackets before them.

Main definitions: `Rules.expressionKinds`, `Rules.literals`, `Rules.accesses`, `Rules.operations`,
`Rules.functionExpressions`.
-/

namespace PackageExports.Script.Rules

open Category Phrase

/-- The kinds of expressions: either elements are among them, or assertions of types. -/
def expressionKinds (elements : Bool) : List Definition :=
  let (first, second) : Phrase × Phrase := if elements then (primary, anyElement) else (typeAssertion, primary)
  [
    plain expression (oneOf [asExpression, satisfiesExpression, instantiation, namespaceDeclaration, first, second,
      assignment, updatingAssignment, awaitExpression, unary, binary, conditional, increment, newExpression,
      yieldExpression, arrowFunction]),
    plain primary (oneOf [subscript, member, parenthesized, identifier, reservedWord, "this", "super", Token.number,
      string, template, regularExpression, "true", "false", "null", object, array, functionExpression,
      generatorExpression, classExpression, metaProperty, call, nonNull])]

/-- Expressions that write out a value. -/
def literals : List Definition :=
  [
    plain string (oneOf [seq ["\"", many (oneOf [Token.doubleQuotedText, Token.escape]), "\""],
      seq ["'", many (oneOf [Token.singleQuotedText, Token.escape]), "'"]]),
    plain template (seq ["`", many (oneOf [Token.templateText, Token.escape, substitution]), "`"]),
    plain substitution (seq ["$\x7b", expressions, "\x7d"]),
    plain regularExpression (seq ["/", Token.patternBody, Token.patternEnd, opt Token.patternFlags]),
    ranked "object" object (seq ["\x7b",
      opt (listed (opt (oneOf [property, spread, method, Token.word, reservedWord]))), "\x7d"]),
    plain property (seq [propertyName, ":", expression]),
    plain array (seq ["[", opt (listed (opt (oneOf [expression, spread]))), "]"]),
    plain spread (seq ["...", expression]),
    plain propertyName (oneOf [Token.word, reservedWord, Token.privateWord, string, Token.number, computedName]),
    plain computedName (seq ["[", expression, "]"]),
    plain metaProperty (oneOf [seq ["new", ".", "target"], seq ["import", ".", "meta"]])]

/-- Calls and what belongs to other values. -/
def accesses : List Definition :=
  [
    plain parenthesized (seq ["(", oneOf [seq [expression, opt typeAscription], sequence], ")"]),
    ranked "call" call (seq [oneOf [expression, importWord], opt typeArguments, arguments]),
    ranked "templateCall" call (seq [oneOf [primary, newExpression], template]),
    ranked "member" call (seq [primary, "?.", opt typeArguments, arguments]),
    rightRanked "new" newExpression (seq ["new", primary, opt typeArguments, opt arguments]),
    plain arguments (seq ["(", opt (listed (opt (oneOf [expression, spread]))), ")"]),
    ranked "member" member (seq [oneOf [expression, primary, importWord], oneOf [".", optionalChain],
      oneOf [Token.privateWord, Token.word]]),
    rightRanked "member" subscript (seq [oneOf [expression, primary], opt optionalChain, "[", expressions, "]"]),
    plain optionalChain "?.",
    leftRanked "unary" nonNull (seq [expression, "!"]),
    ranked "instantiation" instantiation (seq [expression, typeArguments]),
    ranked "member" qualifiedName (seq [oneOf [Token.word, qualifiedName], ".", Token.word])]

/-- Expressions made up of others by operators. -/
def operations : List Definition :=
  [
    rightRanked "assign" assignment (seq [opt "using", oneOf [parenthesized, target], "=", expression]),
    plain updatedTarget (oneOf [member, subscript, reservedWord, Token.word, parenthesized, nonNull]),
    rightRanked "assign" updatingAssignment (seq [updatedTarget,
      oneOf ["+=", "-=", "*=", "/=", "%=", "^=", "&=", "|=", ">>=", ">>>=", "<<=", "**=", "&&=", "||=", "??="],
      expression]),
    rightRanked "ternary" conditional (seq [expression, Token.questionMark, expression, ":", expression]),
    leftRanked "logicalAnd" binary (seq [expression, "&&", expression]),
    leftRanked "logicalOr" binary (seq [expression, "||", expression]),
    leftRanked "binaryShift" binary (seq [expression, ">>", expression]),
    leftRanked "binaryShift" binary (seq [expression, ">>>", expression]),
    leftRanked "binaryShift" binary (seq [expression, "<<", expression]),
    leftRanked "bitwiseAnd" binary (seq [expression, "&", expression]),
    leftRanked "bitwiseXor" binary (seq [expression, "^", expression]),
    leftRanked "bitwiseOr" binary (seq [expression, "|", expression]),
    leftRanked "binaryPlus" binary (seq [expression, "+", expression]),
    leftRanked "binaryPlus" binary (seq [expression, "-", expression]),
    leftRanked "binaryTimes" binary (seq [expression, "*", expression]),
    leftRanked "binaryTimes" binary (seq [expression, "/", expression]),
    leftRanked "binaryTimes" binary (seq [expression, "%", expression]),
    rightRanked "binaryExp" binary (seq [expression, "**", expression]),
    leftRanked "binaryRelation" binary (seq [expression, "<", expression]),
    leftRanked "binaryRelation" binary (seq [expression, "<=", expression]),
    leftRanked "binaryEquality" binary (seq [expression, "==", expression]),
    leftRanked "binaryEquality" binary (seq [expression, "===", expression]),
    leftRanked "binaryEquality" binary (seq [expression, "!=", expression]),
    leftRanked "binaryEquality" binary (seq [expression, "!==", expression]),
    leftRanked "binaryRelation" binary (seq [expression, ">=", expression]),
    leftRanked "binaryRelation" binary (seq [expression, ">", expression]),
    leftRanked "ternary" binary (seq [expression, "??", expression]),
    leftRanked "binaryRelation" binary (seq [expression, "instanceof", expression]),
    leftRanked "binaryRelation" binary (seq [oneOf [expression, Token.privateWord], "in", expression]),
    leftRanked "unaryVoid" unary (seq [oneOf ["!", "~", "-", "+", "typeof", "void", "delete"], expression]),
    left increment (oneOf [seq [expression, oneOf ["++", "--"]], seq [oneOf ["++", "--"], expression]]),
    ranked "unaryVoid" awaitExpression (seq ["await", expression]),
    right yieldExpression (seq ["yield", oneOf [seq ["*", expression], opt expression]]),
    right sequence (listed expression),
    leftRanked "binary" asExpression (seq [expression, "as", oneOf ["const", typeExpression]]),
    leftRanked "binary" satisfiesExpression (seq [expression, "satisfies", typeExpression]),
    leftRanked "unary" typeAssertion (seq [typeArguments, expression])]

def functionExpressions : List Definition :=
  [
    ranked "literal" functionExpression (seq [opt "async", "function", opt Token.word, signature, block]),
    ranked "literal" generatorExpression (seq [opt "async", "function", "*", opt Token.word, signature, block]),
    plain arrowFunction (seq [opt "async", oneOf [reservedWord, Token.word, signature], "=>",
      oneOf [expression, block]])]

end PackageExports.Script.Rules
