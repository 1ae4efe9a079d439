import PackageExports.Script.Lexeme

/-!
# Tokens that are found by what is around them

A semicolon is implied at the end of a line or of a block, unless what follows would go on with the statement. The
question mark of a conditional expression is told from those of optional parameters by what follows it. The text of a
template reaches up to a substitution, and that of an element up to the next tag or bracket.

Main definition: `impliedLexeme?`.
-/

namespace PackageExports.Script

open Grammar (Lexeme Place TokenSet)

namespace Implied

def isBlank (c : CodePoint) : Bool :=
  (9 ≤ c.val && c.val ≤ 13) || c.val == 32 || c.val == 0x1680 || (0x2000 ≤ c.val && c.val ≤ 0x2006) ||
    (0x2008 ≤ c.val && c.val ≤ 0x200A) || c.val == 0x2028 || c.val == 0x2029 || c.val == 0x205F || c.val == 0x3000

def isLineEnd (c : CodePoint) : Bool :=
  c.val == 10 || c.val == 0x2028 || c.val == 0x2029

/-- Whether a text is over; a null character ends it as well. -/
def isOver : Text → Bool
  | [] => true
  | c :: _ => c.val == 0

def isAt (marks : Text) : Text → Bool
  | [] => false
  | c :: _ => marks.contains c

/-- How far the text of a template reaches, if it comes to an end. -/
def templateText? : Text → Option Nat
  | [] => none
  | c :: rest =>
    if c.val = 0 then none
    else if c = '\x60' ∨ c = '\\' ∨ c = '$' ∧ isAt "\x7b" rest then some 0
    else (templateText? rest).map (· + 1)

/-- The text of an element before the next tag, bracket or reference. -/
def elementText (t : Text) : Text :=
  t.takeWhile fun c => c.val != 0 && !isAt "<>\x7b\x7d&" [c]

/-- Whether the text of an element is more than the ends of lines and the white space after them. -/
def hasText : (afterLineEnd : Bool) → Text → Bool
  | _, [] => false
  | afterLineEnd, c :: rest =>
    if c = '\n' then hasText true rest
    else if afterLineEnd && isBlank c then hasText true rest
    else true

/-- What is found behind white space and comments: something that is no comment after all, something else on the same
line, or something else. -/
inductive Gap where
  | noComment
  | sameLine
  | passed
deriving DecidableEq

/-- What follows a block comment, and whether it held the end of a line; nothing if it is not closed. -/
def afterBlock : (heldLineEnd : Bool) → Text → Bool × Option Text
  | held, [] => (held, none)
  | held, c :: rest =>
    if c.val = 0 then (held, none)
    else if c = '*' ∧ isAt "/" rest then (held, some (rest.drop 1))
    else afterBlock (held || isLineEnd c) rest

/-- What is left of a text whose first null character is the end. -/
def atEnd (t : Text) : Text :=
  t.dropWhile fun c => c.val != 0

/-- What follows white space and comments, in at most `fuel` steps: the kind of gap, whether there was a comment, and
the rest of the text. Unless `all` are passed over, a block comment is the last one if no slash follows it. -/
def gap (all : Bool) : (fuel : Nat) → (heldLineEnd hadComment : Bool) → Text → Gap × Bool × Text
  | 0, _, hadComment, t => (.passed, hadComment, t)
  | fuel + 1, held, hadComment, t =>
    match t.dropWhile isBlank with
    | [] => (.passed, hadComment, [])
    | c :: rest =>
      if c ≠ '/' then (.passed, hadComment, c :: rest)
      else if isAt "/" rest then
        gap all fuel held true (rest.dropWhile fun c => c.val != 0 && !isLineEnd c)
      else if isAt "*" rest then
        match afterBlock held (rest.drop 1) with
        | (held, some after) =>
          if !isAt "/" after && !all then (if held then .passed else .sameLine, true, after)
          else gap all fuel held true after
        | (held, none) => gap all fuel held hadComment (atEnd rest)
      else (.noComment, hadComment, rest)

/-- Whether a name goes on with a code point. -/
def isNamePart (t : Text) : Bool :=
  t.head?.any fun c => c.isLetter || 0x80 ≤ c.val

/-- Whether a statement ends before a word that starts with `i`: it does not before `in` and `instanceof`. -/
def endsBeforeWord (t : Text) : Bool :=
  if !isAt "n" t then true
  else if !isNamePart (t.drop 1) then false
  else
    match Text.dropStart? "stanceof" (t.drop 1) with
    | some after => isNamePart after
    | none => true

/-- Whether a statement ends where the next line goes on with a text. -/
def endsBefore (inSignature inExpression : Bool) (t : Text) : Bool :=
  if isAt "\x60,.;*%><=?^|&/:" t then false
  else if isAt "\x7b" t then !inSignature
  else if isAt "([" t then !inExpression
  else if isAt "+" t then isAt "+" (t.drop 1)
  else if isAt "-" t then isAt "-" (t.drop 1)
  else if isAt "!" t then !isAt "=" (t.drop 1)
  else if isAt "i" t then endsBeforeWord (t.drop 1)
  else true

/-- Whether a statement ends at a text, whether a comment was passed over to tell, and where it was told. -/
def endOfStatement (inSignature inExpression : Bool) : (fuel : Nat) → (hadComment : Bool) → Text → Bool × Bool × Text
  | 0, hadComment, t => (true, hadComment, t)
  | fuel + 1, hadComment, t =>
    if isOver t then (true, hadComment, t)
    else
      let (kind, hadComment, t) :=
        if isAt "/" t then gap false t.length false hadComment t else (.sameLine, hadComment, t)
      if kind = .noComment then (false, hadComment, t)
      else if kind = .passed ∧ !inExpression ∧ !isAt ",=" t then (true, hadComment, t)
      else
        match t with
        | [] => (false, hadComment, t)
        | c :: rest =>
          if c = '\x7d' then
            let after := rest.dropWhile isBlank
            (inExpression || !isAt ":" after, hadComment, after)
          else if isLineEnd c then
            let (kind, hadComment, after) := gap true rest.length false hadComment rest
            (kind ≠ .noComment && endsBefore inSignature inExpression after, hadComment, after)
          else if isBlank c then endOfStatement inSignature inExpression fuel hadComment rest
          else (false, hadComment, t)

/-- The question mark of a conditional expression at a place. -/
def questionMark? (token : Nat) (place : Place) : Option Lexeme :=
  let start := place.skip isBlank
  match start.rest with
  | c :: rest =>
    let after := rest.dropWhile isBlank
    if c ≠ '?' ∨ isAt "?." rest ∨ isAt ":)," after then none
    else if isAt "." after ∧ !(after.drop 1).head?.any CodePoint.isDigit then none
    else some ⟨token, start, start.advance 1, false⟩
  | [] => none

/-- A comment in the manner of markup at a place. -/
def markupComment? (token : Nat) (place : Place) : Option Lexeme :=
  let start := place.skip isBlank
  if Text.startsWith start.rest "<!--" || Text.startsWith start.rest "-->" then
    some ⟨token, start, start.skip fun c => c.val != 0 && !isLineEnd c, false⟩
  else none

end Implied

/-- The tokens that are found by what is around them, or that tell where one is, by their places among all. -/
structure ImpliedTokens where
  lineEndSemicolon : Nat := Token.lineEndSemicolon.index
  signatureEnd : Nat := Token.signatureEnd.index
  questionMark : Nat := Token.questionMark.index
  templateText : Nat := Token.templateText.index
  elementText : Nat := Token.elementText.index
  markupComment : Nat := Token.markupComment.index
  disjunction : Nat := (Token.written "||").index
  escape : Nat := Token.escape.index
  patternBody : Nat := Token.patternBody.index

/-- The places of the tokens that are found by what is around them. -/
def impliedTokens : ImpliedTokens := {}

/-- The semicolon that is implied at a place, or the question mark that stands there. -/
def impliedSemicolon? (possible : TokenSet) (place : Place) : Option Lexeme :=
  let ids := impliedTokens
  let (ends, hadComment, rest) :=
    Implied.endOfStatement (possible.has ids.signatureEnd) (possible.has ids.disjunction) (place.rest.length + 1) false
      place.rest
  if ends then some ⟨ids.lineEndSemicolon, place, place, false⟩
  else if !hadComment && possible.has ids.questionMark && Implied.isAt "?" rest then
    Implied.questionMark? ids.questionMark (place.advance (place.rest.length - rest.length))
  else none

/-- The token at a place that is found by what is around it, among those that are possible there. -/
def impliedLexeme? (possible : TokenSet) (place : Place) : Option Lexeme :=
  let ids := impliedTokens
  let mayEnd := possible.has ids.lineEndSemicolon || possible.has ids.signatureEnd
  if possible.has ids.templateText then
    if possible.has ids.lineEndSemicolon then none
    else
      match Implied.templateText? place.rest with
      | some (n + 1) => some ⟨ids.templateText, place, place.advance (n + 1), false⟩
      | _ => none
  else if possible.has ids.elementText && Implied.hasText false (Implied.elementText place.rest) then
    some ⟨ids.elementText, place, place.advance (Implied.elementText place.rest).length, false⟩
  else if mayEnd then impliedSemicolon? possible place
  else if possible.has ids.questionMark then Implied.questionMark? ids.questionMark place
  else if possible.has ids.markupComment && !possible.has ids.disjunction && !possible.has ids.escape &&
      !possible.has ids.patternBody then
    Implied.markupComment? ids.markupComment place
  else none

end PackageExports.Script
