import PackageExports.Script.Phrase

/-!
# Elements

Elements in angle brackets, as expressions.

Main definitions: `Rules.elements`, `Rules.attributes`.
-/

namespace PackageExports.Script.Rules

open Category Phrase

def tagWord : Phrase :=
  oneOf [Token.hyphenatedWord, Token.word]

def tagName : Phrase :=
  oneOf [tagWord, qualifiedName, namespacedName]

/-- What stands between the tags of an element. -/
def elementChild : Phrase :=
  oneOf [Token.elementText, Token.characterReference, anyElement, elementExpression]

/-- The start of an opening tag. -/
def tagStart : Phrase :=
  seq ["<", opt (seq [
    oneOf [tagWord, namespacedName, seq [oneOf [Token.word, qualifiedName], opt typeArguments]],
    many (oneOf [tagAttribute, elementExpression])])]

def attributeName : Phrase :=
  oneOf [tagWord, namespacedName]

def attributeValue : Phrase :=
  oneOf [attributeString, elementExpression, anyElement]

def elements : List Definition :=
  [
    plain element (seq [openingTag, many elementChild, closingTag]),
    plain elementExpression (seq ["\x7b", opt (oneOf [expression, sequence, spread]), "\x7d"]),
    favoured (-1) openingTag (seq [tagStart, ">"]),
    plain closingTag (seq ["</", opt tagName, ">"]),
    favoured (-1) selfClosingTag (seq [tagStart, "/>"]),
    plain namespacedName (seq [tagWord, ":", tagWord])]

def attributes : List Definition :=
  [
    plain tagAttribute (seq [attributeName, opt (seq ["=", attributeValue])]),
    plain attributeString (oneOf [
      seq ["\"", many (oneOf [Token.doubleQuotedAttribute, Token.characterReference]), "\""],
      seq ["'", many (oneOf [Token.singleQuotedAttribute, Token.characterReference]), "'"]])]

end PackageExports.Script.Rules
