import PackageExports.Grammar.Rule
import PackageExports.Script.Category
import PackageExports.Script.Token

/-!
# Rules for scripts

The words in which the grammar of scripts is written down: rules made up of tokens and categories, what defines a
category, and the rules that several categories share.

Main definitions: `Phrase`, `Definition`.
-/

namespace PackageExports.Script

open Category
open Grammar (Clause Precedence Rule Side)

/-- A rule for a part of a script. -/
abbrev Phrase := Rule Token Category

/-- One of the ways to make up phrases of a category. -/
abbrev Definition := Category × Clause Token Category

namespace Phrase

instance : Coe Token Phrase :=
  ⟨.token⟩

instance : Coe String Phrase :=
  ⟨fun s => .token (.written s)⟩

instance : Coe Category Phrase :=
  ⟨.category⟩

def seq (rules : List Phrase) : Phrase :=
  Rule.seq rules

def oneOf (rules : List Phrase) : Phrase :=
  Rule.oneOf rules

def opt (r : Phrase) : Phrase :=
  Rule.opt r

def many (r : Phrase) : Phrase :=
  Rule.many r

def listed (r : Phrase) : Phrase :=
  Rule.separated "," r

def separated (separator r : Phrase) : Phrase :=
  Rule.separated separator r

/-! ### Definitions -/

def plain (c : Category) (r : Phrase) : Definition :=
  (c, { rule := r })

def ranked (rank : String) (c : Category) (r : Phrase) : Definition :=
  (c, { rule := r, precedence := .rank rank })

def level (n : Int) (c : Category) (r : Phrase) : Definition :=
  (c, { rule := r, precedence := .level n })

/-- A category that is not read on when it is complete. -/
def left (c : Category) (r : Phrase) : Definition :=
  (c, { rule := r, side := some .left })

/-- A category that is read on where it can be. -/
def right (c : Category) (r : Phrase) : Definition :=
  (c, { rule := r, side := some .right })

/-- A category of a rank that is not read on when it is complete. -/
def leftRanked (rank : String) (c : Category) (r : Phrase) : Definition :=
  (c, { rule := r, precedence := .rank rank, side := some .left })

/-- A category of a level of precedence that is not read on when it is complete. -/
def leftLevel (n : Int) (c : Category) (r : Phrase) : Definition :=
  (c, { rule := r, precedence := .level n, side := some .left })

/-- A category of a rank that is read on where it can be. -/
def rightRanked (rank : String) (c : Category) (r : Phrase) : Definition :=
  (c, { rule := r, precedence := .rank rank, side := some .right })

/-- A category that is favoured over others, or less than others. -/
def favoured (n : Int) (c : Category) (r : Phrase) : Definition :=
  (c, { rule := r, favour := n })

/-! ### Shared rules -/

/-- An expression, or several of which the last one gives the value. -/
def expressions : Phrase :=
  oneOf [expression, sequence]

def semicolon : Phrase :=
  oneOf [Token.lineEndSemicolon, ";"]

def identifier : Phrase :=
  oneOf ["undefined", Token.word]

/-- The keywords that can be names as well. -/
def reservedWord : Phrase :=
  oneOf ["declare", "namespace", "type", "public", "private", "protected", "override", "readonly", "module", "any",
    "number", "boolean", "string", "symbol", "export", "object", "new", "readonly", "get", "set", "async", "static",
    "export", "let"]

/-- What a value can be assigned to. -/
def target : Phrase :=
  oneOf [member, subscript, identifier, reservedWord, destructuring, nonNull]

def anyElement : Phrase :=
  oneOf [element, selfClosingTag]

end Phrase

end PackageExports.Script
