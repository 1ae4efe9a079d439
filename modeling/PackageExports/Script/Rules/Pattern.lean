import PackageExports.Script.Phrase

/-!
# Patterns and parameters

What takes a value apart, and what functions take.

Main definitions: `Rules.patterns`, `Rules.parameterLists`.
-/

namespace PackageExports.Script.Rules

open Category Phrase

def patterns : List Definition :=
  [
    favoured (-1) pattern (oneOf [target, restPattern]),
    right restPattern (seq ["...", target]),
    plain destructuring (oneOf [objectPattern, arrayPattern]),
    ranked "object" objectPattern (seq ["\x7b",
      opt (listed (opt (oneOf [propertyPattern, restPattern, defaultedProperty, Token.word, reservedWord]))), "\x7d"]),
    plain propertyPattern (seq [propertyName, ":", oneOf [pattern, defaultedPattern]]),
    plain arrayPattern (seq ["[", opt (listed (opt (oneOf [pattern, defaultedPattern]))), "]"]),
    plain defaultedPattern (seq [pattern, "=", expression]),
    plain defaultedProperty (seq [oneOf [reservedWord, Token.word, destructuring], "=", expression])]

def parameterLists : List Definition :=
  [
    plain signature (seq [opt typeParameters, parameters,
      opt (oneOf [typeAscription, assertionAscription, typePredicateAscription])]),
    plain parameters (seq ["(", opt (seq [listed parameter, opt ","]), ")"]),
    plain parameter (oneOf [requiredParameter, optionalParameter]),
    plain requiredParameter (seq [parameterName, opt typeAscription, opt initialValue]),
    plain optionalParameter (seq [parameterName, "?", opt typeAscription, opt initialValue]),
    plain parameterName (seq [many decorator, opt accessModifier, opt overrideModifier, opt "readonly",
      oneOf [pattern, "this"]]),
    plain accessModifier (oneOf ["public", "private", "protected"]),
    plain overrideModifier "override"]

end PackageExports.Script.Rules
