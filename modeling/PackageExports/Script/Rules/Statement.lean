import PackageExports.Script.Phrase

/-!
# Statements

What a script consists of.

Main definitions: `Rules.statements`, `Rules.branches`, `Rules.loops`, `Rules.jumps`.
-/

namespace PackageExports.Script.Rules

open Category Phrase

def statements : List Definition :=
  [
    plain script (seq [opt Token.hashbang, many statement]),
    plain statement (oneOf [exportStatement, importStatement, debuggerStatement, expressionStatement, declaration,
      block, ifStatement, switchStatement, forStatement, forInStatement, whileStatement, doStatement, tryStatement,
      withStatement, breakStatement, continueStatement, returnStatement, throwStatement, emptyStatement,
      labeledStatement]),
    plain expressionStatement (seq [expressions, semicolon]),
    right block (seq ["\x7b", many statement, "\x7d", opt Token.lineEndSemicolon]),
    plain emptyStatement ";",
    favoured (-1) labeledStatement (seq [oneOf [Token.word, reservedWord], ":", statement]),
    plain debuggerStatement (seq ["debugger", semicolon]),
    plain withStatement (seq ["with", parenthesized, statement])]

/-- Statements that choose what is done. -/
def branches : List Definition :=
  [
    right ifStatement (seq ["if", parenthesized, statement, opt elseClause]),
    plain elseClause (seq ["else", statement]),
    plain switchStatement (seq ["switch", parenthesized, switchBody]),
    plain switchBody (seq ["\x7b", many (oneOf [switchCase, switchDefault]), "\x7d"]),
    plain switchCase (seq ["case", expressions, ":", many statement]),
    plain switchDefault (seq ["default", ":", many statement]),
    plain tryStatement (seq ["try", block, opt catchClause, opt finallyClause]),
    plain catchClause (seq ["catch", opt (seq ["(", oneOf [Token.word, destructuring], opt typeAscription, ")"]),
      block]),
    plain finallyClause (seq ["finally", block])]

/-- Statements that repeat others. -/
def loops : List Definition :=
  [
    plain forStatement (seq ["for", "(",
      oneOf [lexicalDeclaration, variableDeclaration, seq [expressions, ";"], emptyStatement],
      oneOf [seq [expressions, ";"], emptyStatement], opt expressions, ")", statement]),
    plain forInStatement (seq ["for", opt "await", forInHead, statement]),
    plain forInHead (seq ["(",
      oneOf [target, parenthesized, seq ["var", oneOf [Token.word, destructuring], opt initialValue],
        seq [oneOf ["let", "const"], oneOf [Token.word, destructuring], opt Token.lineEndSemicolon]],
      oneOf ["in", "of"], expressions, ")"]),
    plain whileStatement (seq ["while", parenthesized, statement]),
    right doStatement (seq ["do", statement, "while", parenthesized, opt semicolon])]

/-- Statements that leave others. -/
def jumps : List Definition :=
  [
    plain breakStatement (seq ["break", opt Token.word, semicolon]),
    plain continueStatement (seq ["continue", opt Token.word, semicolon]),
    plain returnStatement (seq ["return", opt expressions, semicolon]),
    plain throwStatement (seq ["throw", expressions, semicolon])]

end PackageExports.Script.Rules
