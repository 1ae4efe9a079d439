import PackageExports.Script.Phrase

/-!
# Imports and exports

How a script names other modules and what it takes from them or passes on.

Main definitions: `Rules.exports`, `Rules.imports`.
-/

namespace PackageExports.Script.Rules

open Category Phrase

def exports : List Definition :=
  [
    plain exportStatement (oneOf [
      seq ["export",
        oneOf [seq ["*", fromClause], seq [exportedNamespace, fromClause], seq [exportClause, fromClause],
          exportClause], semicolon],
      seq [many decorator, "export",
        oneOf [declaration, seq ["default", oneOf [declaration, seq [expression, semicolon]]]]],
      seq ["export", "type", exportClause, opt fromClause, semicolon], seq ["export", "import", importAlias],
      seq ["export", "=", expression, semicolon], seq ["export", "as", "namespace", Token.word, semicolon]]),
    plain exportedNamespace (seq ["*", "as", moduleName]),
    plain exportClause (seq ["\x7b", opt (listed exportedName), opt ",", "\x7d"]),
    plain exportedName (seq [opt (oneOf ["type", "typeof"]), seq [moduleName, opt (seq ["as", moduleName])]]),
    plain moduleName (oneOf [Token.word, string, "default"])]

def imports : List Definition :=
  [
    plain importWord "import",
    plain importStatement (seq ["import", opt (oneOf ["type", "typeof"]),
      oneOf [seq [importClause, fromClause], importRequireClause, string], opt importAttribute, semicolon]),
    plain importClause (oneOf [importedNamespace, importedNames,
      seq [importIdentifier, opt (seq [",", oneOf [importedNamespace, importedNames]])]]),
    plain fromClause (seq ["from", string]),
    plain importedNamespace (seq ["*", "as", Token.word]),
    plain importedNames (seq ["\x7b", opt (listed importedName), opt ",", "\x7d"]),
    plain importedName (seq [opt (oneOf ["type", "typeof"]),
      oneOf [importIdentifier, seq [oneOf [moduleName, "type"], "as", importIdentifier]]]),
    plain importAttribute (seq ["with", object]),
    plain importIdentifier (oneOf [Token.word, "type"]),
    plain importRequireClause (seq [Token.word, "=", "require", "(", string, ")"]),
    plain importAlias (seq ["import", Token.word, "=", oneOf [Token.word, qualifiedName], semicolon])]

end PackageExports.Script.Rules
