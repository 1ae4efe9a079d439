import PackageExports.Script.Phrase

/-!
# Classes

Classes, their members and decorators.

Main definitions: `Rules.classes`, `Rules.members`, `Rules.decorators`.
-/

namespace PackageExports.Script.Rules

open Category Phrase

/-- Classes and what they extend. -/
def classes : List Definition :=
  [
    ranked "literal" classExpression (seq [many decorator, "class", opt Token.word, opt typeParameters,
      opt classHeritage, classBody]),
    leftRanked "declare" classDeclaration (seq [many decorator, "class", Token.word, opt typeParameters,
      opt classHeritage, classBody, opt Token.lineEndSemicolon]),
    ranked "declare" abstractClassDeclaration (seq [many decorator, "abstract", "class", Token.word,
      opt typeParameters, opt classHeritage, classBody]),
    plain classHeritage (oneOf [seq [extendsClause, opt implementsClause], implementsClause]),
    plain extendsClause (seq ["extends", listed extendedClass]),
    ranked "extends" extendedClass (seq [expression, opt typeArguments]),
    plain implementsClause (seq ["implements", listed typeExpression])]

def members : List Definition :=
  [
    plain classBody (seq ["\x7b",
      many (oneOf [decorator, seq [method, opt semicolon], seq [methodSignature, oneOf [Token.signatureEnd, ","]],
        staticBlock,
        seq [oneOf [abstractMethodSignature, indexSignature, methodSignature, fieldDefinition],
          oneOf [semicolon, ","]], ";"]), "\x7d"]),
    plain staticBlock (seq ["static", block]),
    left method (seq [opt accessModifier, opt "static", opt overrideModifier, opt "readonly", opt "async",
      opt (oneOf ["get", "set", "*"]), propertyName, opt "?", signature, block]),
    plain methodSignature (seq [opt accessModifier, opt "static", opt overrideModifier, opt "readonly", opt "async",
      opt (oneOf ["get", "set", "*"]), propertyName, opt "?", signature]),
    plain abstractMethodSignature (seq [opt accessModifier, "abstract", opt overrideModifier,
      opt (oneOf ["get", "set", "*"]), propertyName, opt "?", signature]),
    plain fieldDefinition (seq [opt (oneOf [seq ["declare", opt accessModifier], seq [accessModifier, opt "declare"]]),
      oneOf [seq [opt "static", opt overrideModifier, opt "readonly"], seq [opt "abstract", opt "readonly"],
        seq [opt "readonly", opt "abstract"], opt "accessor"], propertyName, opt (oneOf ["?", "!"]),
      opt typeAscription, opt initialValue])]

def decorators : List Definition :=
  [
    plain decorator (seq ["@", oneOf [Token.word, decoratorMember, decoratorCall, decoratorParenthesized]]),
    ranked "member" decoratorMember (seq [oneOf [Token.word, decoratorMember], ".", Token.word]),
    ranked "call" decoratorCall (seq [oneOf [Token.word, decoratorMember], opt typeArguments, arguments]),
    plain decoratorParenthesized (seq ["(", oneOf [Token.word, decoratorMember, decoratorCall], ")"])]

end PackageExports.Script.Rules
