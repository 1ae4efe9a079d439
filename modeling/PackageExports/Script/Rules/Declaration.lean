import PackageExports.Script.Phrase

/-!
# Declarations

What gives a name to a value, a type or a namespace.

Main definitions: `Rules.variableDeclarations`, `Rules.functions`, `Rules.namespaces`, `Rules.typeDeclarations`.
-/

namespace PackageExports.Script.Rules

open Category Phrase

def variableDeclarations : List Definition :=
  [
    plain declaration (oneOf [functionDeclaration, generatorDeclaration, classDeclaration, lexicalDeclaration,
      variableDeclaration, functionSignature, abstractClassDeclaration, moduleDeclaration]),
    ranked "declare" declaration namespaceDeclaration,
    plain declaration (oneOf [typeAliasDeclaration, enumDeclaration, interfaceDeclaration, importAlias,
      ambientDeclaration]),
    plain variableDeclaration (seq ["var", listed declarator, semicolon]),
    plain lexicalDeclaration (seq [oneOf ["let", "const"], listed declarator, semicolon]),
    plain declarator (seq [oneOf [Token.word, destructuring], opt typeAscription, opt initialValue]),
    ranked "declare" declarator (seq [Token.word, "!", typeAscription]),
    plain initialValue (seq ["=", expression])]

def functions : List Definition :=
  [
    rightRanked "declare" functionDeclaration (seq [opt "async", "function", Token.word, signature, block,
      opt Token.lineEndSemicolon]),
    rightRanked "declare" generatorDeclaration (seq [opt "async", "function", "*", Token.word, signature, block,
      opt Token.lineEndSemicolon]),
    plain functionSignature (seq [opt "async", "function", Token.word, signature,
      oneOf [semicolon, Token.signatureEnd]])]

/-- Declarations of namespaces, and those of what is defined elsewhere. -/
def namespaces : List Definition :=
  [
    plain moduleDeclaration (seq ["module", moduleBody]),
    plain namespaceDeclaration (seq ["namespace", moduleBody]),
    right moduleBody (seq [oneOf [string, Token.word, qualifiedName], opt block]),
    plain ambientDeclaration (seq ["declare",
      oneOf [declaration, seq ["global", block], seq ["module", ".", Token.word, ":", typeExpression, semicolon]]])]

def typeDeclarations : List Definition :=
  [
    plain typeAliasDeclaration (seq ["type", Token.word, opt typeParameters, "=", typeExpression, semicolon]),
    leftRanked "declare" interfaceDeclaration (seq ["interface", Token.word, opt typeParameters, opt extendsTypeClause,
      objectType]),
    plain extendsTypeClause (seq ["extends", listed (oneOf [Token.word, qualifiedTypeName, genericType])]),
    plain enumDeclaration (seq [opt "const", "enum", Token.word, enumBody]),
    plain enumBody (seq ["\x7b", opt (seq [listed (oneOf [propertyName, enumAssignment]), opt ","]), "\x7d"]),
    plain enumAssignment (seq [propertyName, initialValue])]

end PackageExports.Script.Rules
