import PackageExports.Script.Phrase

/-!
# Types

What types are made up of, and where they are given.

Main definitions: `Rules.typeKinds`, `Rules.compositeTypes`, `Rules.tupleTypes`, `Rules.objectTypes`,
`Rules.queries`, `Rules.ascriptions`.
-/

namespace PackageExports.Script.Rules

open Category Phrase

def typeKinds : List Definition :=
  [
    plain typeExpression (oneOf [primaryType, functionType, readonlyType, constructorType, inferType]),
    level (-1) typeExpression importTypeMember,
    level (-1) typeExpression importTypeCall,
    plain primaryType (oneOf [parenthesizedType, predefinedType, Token.word, qualifiedTypeName, genericType,
      objectType, arrayType, tupleType, maybeType, typeQuery, keyQuery, "this", existentialType, literalType,
      lookupType, conditionalType, templateLiteralType, intersectionType, unionType, "const"]),
    plain predefinedType (oneOf ["any", "number", "boolean", "string", "symbol", seq ["unique", "symbol"], "void",
      "unknown", "string", "never", "object"]),
    plain literalType (oneOf [signedNumber, Token.number, string, "true", "false", "null", "undefined"]),
    leftLevel 1 signedNumber (seq [oneOf ["-", "+"], Token.number]),
    plain parenthesizedType (seq ["(", typeExpression, ")"]),
    plain existentialType "*",
    right maybeType (seq ["?", primaryType]),
    plain readonlyType (seq ["readonly", typeExpression])]

/-- Types made up of others. -/
def compositeTypes : List Definition :=
  [
    ranked "call" genericType (seq [oneOf [Token.word, qualifiedTypeName], typeArguments]),
    ranked "member" qualifiedTypeName (seq [oneOf [Token.word, qualifiedName], ".", Token.word]),
    plain typeArguments (seq ["<", listed typeExpression, opt ",", ">"]),
    plain arrayType (seq [primaryType, "[", "]"]),
    plain lookupType (seq [primaryType, "[", typeExpression, "]"]),
    plain keyQuery (seq ["keyof", primaryType]),
    left unionType (seq [opt typeExpression, "|", typeExpression]),
    left intersectionType (seq [opt typeExpression, "&", typeExpression]),
    right conditionalType (seq [typeExpression, "extends", typeExpression, "?", typeExpression, ":", typeExpression]),
    right inferType (seq ["infer", Token.word, opt (seq ["extends", typeExpression])]),
    plain templateLiteralType (seq ["`", many (oneOf [Token.templateText, templateType]), "`"]),
    plain templateType (seq ["$\x7b", oneOf [primaryType, inferType], "\x7d"]),
    left functionType (seq [opt typeParameters, parameters, "=>", oneOf [typeExpression, assertion, typePredicate]]),
    left constructorType (seq [opt "abstract", "new", opt typeParameters, parameters, "=>", typeExpression])]

def tupleTypes : List Definition :=
  [
    plain tupleType (seq ["[", opt (listed tupleMember), opt ",", "]"]),
    plain tupleMember (oneOf [tupleParameter, optionalTupleParameter, optionalType, restType, typeExpression]),
    plain tupleParameter (seq [oneOf [Token.word, restPattern], typeAscription]),
    plain optionalTupleParameter (seq [Token.word, "?", typeAscription]),
    plain optionalType (seq [typeExpression, "?"]),
    plain restType (seq ["...", typeExpression])]

def objectTypes : List Definition :=
  [
    plain objectType (seq [oneOf ["\x7b", "\x7b|"],
      opt (seq [opt (oneOf [",", ";"]),
        separated (oneOf [",", semicolon]) (oneOf [exportStatement, propertySignature, callSignature,
          constructSignature, indexSignature, methodSignature]), opt (oneOf [",", semicolon])]),
      oneOf ["\x7d", "|\x7d"]]),
    plain callSignature signature,
    plain propertySignature (seq [opt accessModifier, opt "static", opt overrideModifier, opt "readonly", propertyName,
      opt "?", opt typeAscription]),
    plain constructSignature (seq [opt "abstract", "new", opt typeParameters, parameters, opt typeAscription]),
    plain indexSignature (seq [opt (seq [opt (oneOf ["-", "+"]), "readonly"]), "[",
      oneOf [seq [oneOf [Token.word, reservedWord], ":", typeExpression], mappedTypeClause], "]",
      oneOf [typeAscription, omittingAscription, addingAscription, optingAscription]]),
    plain mappedTypeClause (seq [Token.word, "in", typeExpression, opt (seq ["as", typeExpression])])]

/-- Types of expressions and of modules. -/
def queries : List Definition :=
  [
    right typeQuery (seq ["typeof",
      oneOf [querySubscript, queryMember, queryCall, queryInstantiation, Token.word, "this"]]),
    plain queryMember (seq [oneOf [Token.word, "this", querySubscript, queryMember, queryCall], oneOf [".", "?."],
      oneOf [Token.privateWord, Token.word]]),
    plain querySubscript (seq [oneOf [Token.word, "this", querySubscript, queryMember, queryCall], opt "?.", "[",
      oneOf [predefinedType, string, Token.number], "]"]),
    plain queryCall (seq [oneOf [importWord, Token.word, queryMember, querySubscript], arguments]),
    plain queryInstantiation (seq [oneOf [importWord, Token.word, queryMember, querySubscript], typeArguments]),
    plain importTypeMember (seq [oneOf [importWord, importTypeMember, importTypeCall], ".",
      oneOf [Token.privateWord, Token.word]]),
    plain importTypeCall (seq [oneOf [importWord, importTypeMember], arguments])]

/-- Where a type is given. -/
def ascriptions : List Definition :=
  [
    plain typeAscription (seq [":", typeExpression]),
    plain omittingAscription (seq ["-?:", typeExpression]),
    plain addingAscription (seq ["+?:", typeExpression]),
    plain optingAscription (seq ["?:", typeExpression]),
    plain assertion (seq ["asserts", oneOf [typePredicate, Token.word, "this"]]),
    plain assertionAscription (seq [":", assertion]),
    plain typePredicate (seq [oneOf [Token.word, "this", predefinedType], "is", typeExpression]),
    plain typePredicateAscription (seq [":", typePredicate]),
    plain typeParameters (seq ["<", listed typeParameter, opt ",", ">"]),
    plain typeParameter (seq [opt "const", Token.word, opt typeConstraint, opt defaultType]),
    plain defaultType (seq ["=", typeExpression]),
    plain typeConstraint (seq [oneOf ["extends", ":"], typeExpression])]

end PackageExports.Script.Rules
