/-!
# The tokens of scripts

JavaScript and TypeScript sources are made up of words, literals and marks. Some tokens are parts of a literal: a string
is its quotation marks and what stands between them.

Main definitions: `Token`, `Token.all`.
-/

namespace PackageExports.Script

/-- A kind of token. -/
inductive Token where
  /-- A keyword or a mark, which is always written in the same way. -/
  | written (s : String)
  | endOfText
  /-- A first line that names the interpreter. -/
  | hashbang
  | word
  /-- A word after a number sign, which names a private member. -/
  | privateWord
  | number
  | comment
  /-- A comment in the manner of markup. -/
  | markupComment
  | doubleQuotedText
  | singleQuotedText
  | escape
  | templateText
  /-- A regular expression between its slashes, the second slash, and the letters after it. -/
  | patternBody
  | patternEnd
  | patternFlags
  /-- The end of a line, or of the text, where a semicolon is implied. -/
  | lineEndSemicolon
  /-- The end of the head of a function that has no body. -/
  | signatureEnd
  /-- The question mark of a conditional expression. -/
  | questionMark
  /-- The text between the tags of an element, and other parts of elements. -/
  | elementText
  | hyphenatedWord
  | characterReference
  | doubleQuotedAttribute
  | singleQuotedAttribute
deriving DecidableEq, Inhabited

namespace Token

instance : Coe String Token :=
  ⟨written⟩

/-- All tokens. Of two readings of the same text that nothing else tells apart, the order decides. -/
def all : List Token :=
  [.endOfText, .hashbang] ++
    ["export", "*", "default", "type", "import", "=", "as", "namespace", "\x7b", ",", "\x7d", "typeof", "from", "with",
     "var", "let", "const", "!", "else", "if", "switch", "for", "(", ";", ")", "await", "in", "of", "while", "do",
     "try", "break", "continue", "debugger", "return", "throw", ":", "case", "catch", "finally", "yield", "[", "]", ".",
     "class", "async", "function", "=>", "?.", "new", "using", "+=", "-=", "*=", "/=", "%=", "^=", "&=", "|=", ">>=",
     ">>>=", "<<=", "**=", "&&=", "||=", "??=", "...", "&&", "||", ">>", ">>>", "<<", "&", "^", "|", "+", "-", "/", "%",
     "**", "<", "<=", "==", "===", "!=", "!==", ">=", ">", "??", "instanceof", "~", "void", "delete", "++", "--", "\"",
     "'"].map written ++
    [.doubleQuotedText, .singleQuotedText, .escape, .comment] ++
    ["`", "$\x7b"].map written ++
    [.patternEnd, .patternBody, .patternFlags, .number, .word, .privateWord] ++
    ["target", "meta", "this", "super", "true", "false", "null", "undefined", "@", "static", "readonly", "get", "set",
     "?", "declare", "public", "private", "protected", "override", "module", "any", "number", "boolean", "string",
     "symbol", "object"].map written ++
    [.characterReference, .hyphenatedWord] ++
    ["</", "/>"].map written ++
    [.doubleQuotedAttribute, .singleQuotedAttribute] ++
    ["abstract", "accessor", "satisfies", "require", "extends", "implements", "global", "interface", "enum", "-?:",
     "+?:", "?:", "asserts", "infer", "is", "keyof", "unique", "unknown", "never", "\x7b|", "|\x7d"].map written ++
    [.lineEndSemicolon, .templateText, .questionMark, .markupComment, .elementText, .signatureEnd]

def index (t : Token) : Nat :=
  all.idxOf t

def isKeyword : Token → Bool
  | written s => s.front.isAlpha
  | _ => false

/-- Whether a token takes no text, so that it is not counted among what has been read. -/
def isHidden : Token → Bool
  | endOfText | lineEndSemicolon | signatureEnd => true
  | _ => false

end Token

end PackageExports.Script
