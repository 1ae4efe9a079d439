import PackageExports.Text.Utf8
import PackageExports.Yaml.Cursor
import PackageExports.Yaml.Fault

/-!
# YAML tokens: names, tags and scalars

The parts of a YAML text that stand for themselves: anchors, tags, directives, and scalars in their five styles.

Main definitions: `Yaml.Token`, `Yaml.scanTag`, `Yaml.scanBlockScalar`, `Yaml.scanQuoted`, `Yaml.scanPlain`.
-/

namespace PackageExports.Yaml

/-- A token of a YAML text. -/
inductive Token where
  | versionDirective (major : Nat)
  | tagDirective (handle start : Text)
  | otherDirective
  | documentStart
  | documentEnd
  | blockSequenceStart
  | blockMappingStart
  | blockEnd
  | flowSequenceStart
  | flowSequenceEnd
  | flowMappingStart
  | flowMappingEnd
  | blockEntry
  | flowEntry
  | key
  | value
  | alias (name : Text)
  | anchor (name : Text)
  | tag (handle : Option Text) (suffix : Text)
  | scalar (text : Text) (isPlain : Bool)
deriving DecidableEq

/-- A name of at least one code point. -/
def scanName (c : Cursor) : Except Fault (Text × Cursor) :=
  let name := c.run isNamePart
  if name.isEmpty then .error .malformed else .ok (name, c.advance name.length)

/-- The name of an anchor or an alias, after its mark. -/
def scanAnchorName (c : Cursor) : Except Fault (Text × Cursor) := do
  let (name, c) ← scanName c.next
  if isBlankOrEnd c.head || c.head.any (· ∈ ("?:,]\x7d%@\x60" : Text)) then .ok (name, c) else .error .malformed

/-- The handle of a tag: an exclamation mark, or a name between two. -/
def scanHandle (c : Cursor) : Except Fault (Text × Cursor) :=
  if c.head ≠ some '!' then .error .malformed
  else if c.peek 1 = some ' ' then .ok ("!", c.next)
  else
    let name := c.next.run isNamePart
    if c.peek (name.length + 1) = some '!' then
      .ok ("!" ++ name ++ "!", c.advance (name.length + 2))
    else .error .malformed

def isTagPart (c : CodePoint) : Bool :=
  c.isDigit || c.isLetter || c ∈ ("-;/?:@&=+$,_.!~*'()[]%" : Text)

/-- The bytes written by a row of escapes, each a percent sign and two hexadecimal digits, and what follows. -/
def escapedBytes? : Text → Option (List UInt8 × Text)
  | percent :: high :: low :: rest =>
    if percent = '%' then
      match high.hexValue?, low.hexValue?, escapedBytes? rest with
      | some a, some b, some (bytes, after) => some (UInt8.ofNat (16 * a + b) :: bytes, after)
      | _, _, _ => none
    else some ([], percent :: high :: low :: rest)
  | rest => if rest.head? = some '%' then none else some ([], rest)

/-- A row of code points of tags, with rows of escapes read as UTF-8. -/
def scanTagText (c : Cursor) : Except Fault (Text × Cursor) :=
  let raw := c.run isTagPart
  let rec unescape : (fuel : Nat) → Text → Option Text
    | 0, t => some t
    | _ + 1, [] => some []
    | fuel + 1, x :: rest =>
      if x = '%' then
        match escapedBytes? (x :: rest) with
        | some (bytes, after) =>
          match Utf8.decode? bytes, unescape fuel after with
          | some read, some more => some (read ++ more)
          | _, _ => none
        | none => none
      else (unescape fuel rest).map (x :: ·)
  match unescape raw.length raw with
  | some t => if raw.isEmpty then .error .malformed else .ok (t, c.advance raw.length)
  | none => .error .malformed

/-- Whether an exclamation mark comes before the next space, looked for from a tag's own mark on. -/
def hasHandle (c : Cursor) : Bool :=
  ((c.next.run fun x => !isSpaceOrEnd (some x)).any (· == CodePoint.ofChar '!'))

/-- A tag: in full between angle brackets, a mark alone, or a handle with a suffix. -/
def scanTag (c : Cursor) : Except Fault (Token × Cursor) := do
  let (token, c) ←
    if c.peek 1 = some '<' then do
      let (suffix, c) ← scanTagText (c.advance 2)
      if c.head = some '>' then pure (Token.tag none suffix, c.next) else .error .malformed
    else if isBlankOrEnd (c.peek 1) then pure (Token.tag none "!", c.next)
    else do
      let (handle, c) ← if hasHandle c then scanHandle c else pure (("!" : Text), c.next)
      let (suffix, c) ← scanTagText c
      pure (Token.tag (some handle) suffix, c)
  if isSpaceOrEnd c.head then .ok (token, c) else .error .malformed

/-- The end of a line with nothing but spaces and a comment on it. -/
def scanRestOfLine (c : Cursor) : Except Fault Cursor :=
  let c := c.skipSpaces.skipComment
  if isLineEnd c.head then .ok c.takeBreak.2 else .error .malformed

/-- The number in a version directive. -/
def scanNumber (c : Cursor) : Except Fault (Nat × Cursor) :=
  let digits := c.run CodePoint.isDigit
  if digits.isEmpty then .error .malformed
  else if Text.mostDigits < digits.length then .error (.longInteger digits.length)
  else .ok (Text.natOfDigits digits, c.advance digits.length)

def scanDirective (c : Cursor) : Except Fault (Token × Cursor) := do
  let (name, c) ← scanName c.next
  if !isSpaceOrEnd c.head then .error .malformed
  let (token, c) ←
    if name = "YAML" then do
      let (major, c) ← scanNumber c.skipSpaces
      if c.head ≠ some '.' then .error .malformed
      let (_, c) ← scanNumber c.next
      if !isSpaceOrEnd c.head then .error .malformed
      pure (Token.versionDirective major, c)
    else if name = "TAG" then do
      let (handle, c) ← scanHandle c.skipSpaces
      if c.head ≠ some ' ' then .error .malformed
      let (start, c) ← scanTagText c.skipSpaces
      if !isSpaceOrEnd c.head then .error .malformed
      pure (Token.tagDirective handle start, c)
    else pure (Token.otherDirective, c.skip (!isBreak ·))
  return (token, ← scanRestOfLine c)

/-- How the line ends after a block scalar are treated. -/
inductive Chomping where
  | strip
  | clip
  | keep
deriving DecidableEq

def chompingOf? (c : Option CodePoint) : Option Chomping :=
  if c = some '+' then some .keep else if c = some '-' then some .strip else none

/-- The indentation that a digit says; zero is none. -/
def indentationOf (c : Option CodePoint) : Except Fault (Option Nat) :=
  match c with
  | some d =>
    if d.isDigit then (if d.digitValue = 0 then .error .malformed else .ok (some d.digitValue)) else .ok none
  | none => .ok none

/-- The marks after the mark of a block scalar, in either order. -/
def scanBlockMarks (c : Cursor) : Except Fault ((Chomping × Option Nat) × Cursor) := do
  let (chomping, indentation, c) ←
    match chompingOf? c.head with
    | some chomping => do
      let indentation ← indentationOf c.next.head
      pure (chomping, indentation, if indentation.isSome then c.advance 2 else c.next)
    | none => do
      let indentation ← indentationOf c.head
      match indentation with
      | some _ =>
        match chompingOf? c.next.head with
        | some chomping => pure (chomping, indentation, c.advance 2)
        | none => pure (Chomping.clip, indentation, c.next)
      | none => pure (Chomping.clip, none, c)
  if isSpaceOrEnd c.head then .ok ((chomping, indentation), c) else .error .malformed

/-- The empty lines before the first line of a block scalar, and the greatest column that they reach. -/
def leadingLines : (fuel : Nat) → Text → (column : Nat) → Cursor → Text × Nat × Cursor
  | 0, breaks, column, c => (breaks, column, c)
  | fuel + 1, breaks, column, c =>
    match c.head with
    | some x =>
      if x = ' ' then leadingLines fuel breaks (max column (c.column + 1)) c.next
      else if isBreak x then
        let (lineEnd, c) := c.takeBreak
        leadingLines fuel (breaks ++ lineEnd) column c
      else (breaks, column, c)
    | none => (breaks, column, c)

/-- The empty lines up to a line with something at a given column or further. -/
def emptyLines : (fuel : Nat) → (column : Nat) → Text → Cursor → Text × Cursor
  | 0, _, breaks, c => (breaks, c)
  | fuel + 1, column, breaks, c =>
    let c := c.skipSpacesTo column
    if c.head.any isBreak then
      let (lineEnd, c) := c.takeBreak
      emptyLines fuel column (breaks ++ lineEnd) c
    else (breaks, c)

/-- The lines of a block scalar at a column, after line ends already read: the text, last code point first, the last
line end, the line ends after it, and the cursor. -/
def blockLines (folded : Bool) (column : Nat) :
    (fuel : Nat) → (read breaks lineEnd : Text) → Cursor → Text × Text × Text × Cursor
  | 0, read, breaks, lineEnd, c => (read, lineEnd, breaks, c)
  | fuel + 1, read, breaks, lineEnd, c =>
    if c.column ≠ column ∨ c.head = none then (read, lineEnd, breaks, c)
    else
      let startsBlank (c : Cursor) : Bool := c.head = some ' ' || c.head = some '\t'
      let line := c.run (!isBreak ·)
      let flush := !startsBlank c
      let read := line.reverse ++ (breaks.reverse ++ read)
      let (lineEnd, c) := (c.advance line.length).takeBreak
      let (breaks, c) := emptyLines fuel column [] c
      if c.column = column ∧ c.head ≠ none then
        let joint : Text :=
          if folded && lineEnd = "\n" && flush && !startsBlank c then (if breaks.isEmpty then " " else [])
          else lineEnd
        blockLines folded column fuel (joint.reverse ++ read) breaks [] c
      else (read, lineEnd, breaks, c)

/-- A block scalar below a given indentation, from its mark on. -/
def scanBlockScalar (folded : Bool) (indent : Int) (c : Cursor) : Except Fault (Token × Cursor) := do
  let ((chomping, indentation), c) ← scanBlockMarks c.next
  let c ← scanRestOfLine c
  let least := (max (indent + 1) 1).toNat
  let size := c.rest.length + 2
  let (column, breaks, c) :=
    match indentation with
    | some more =>
      let column := least + more - 1
      let (breaks, c) := emptyLines size column [] c
      (column, breaks, c)
    | none =>
      let (breaks, greatest, c) := leadingLines size [] 0 c
      (max least greatest, breaks, c)
  let (read, lineEnd, after, c) := blockLines folded column size [] breaks [] c
  let tail : Text :=
    match chomping with
    | .strip => []
    | .clip => lineEnd
    | .keep => lineEnd ++ after
  return (.scalar (read.reverse ++ tail) false, c)

/-- The code point of an escape of one letter in a double-quoted scalar. -/
def escapedPoint? (c : CodePoint) : Option CodePoint :=
  let table : List (Char × Nat) :=
    [('0', 0), ('a', 7), ('b', 8), ('t', 9), ('\t', 9), ('n', 10), ('v', 11), ('f', 12), ('r', 13), ('e', 27),
      (' ', 32), ('"', 34), ('\\', 92), ('/', 47), ('N', 0x85), ('_', 0xA0), ('L', 0x2028), ('P', 0x2029)]
  (table.find? fun (mark, _) => CodePoint.ofChar mark = c).map fun (_, point) => ⟨point⟩

/-- How many hexadecimal digits an escape has. -/
def escapeLength? (c : CodePoint) : Option Nat :=
  if c = 'x' then some 2 else if c = 'u' then some 4 else if c = 'U' then some 8 else none

/-- The empty lines inside a quoted scalar, up to the next line with something on it. -/
def quotedBreaks : (fuel : Nat) → Text → Cursor → Except Fault (Text × Cursor)
  | 0, read, c => .ok (read, c)
  | fuel + 1, read, c =>
    if c.atDocumentMark then .error .malformed
    else
      let c := c.skip isTabOrSpace
      if c.head.any isBreak then
        let (lineEnd, c) := c.takeBreak
        quotedBreaks fuel (read ++ lineEnd) c
      else .ok (read, c)

/-- An escape in a double-quoted scalar, after its backslash. -/
def scanEscape (c : Cursor) : Except Fault (Text × Cursor) :=
  match c.head with
  | none => .error .malformed
  | some x =>
    match escapedPoint? x, escapeLength? x with
    | some point, _ => .ok ([point], c.next)
    | none, some length =>
      let digits := (c.next.rest.take length).filterMap CodePoint.hexValue?
      if digits.length ≠ length then .error .malformed
      else
        let point := digits.foldl (fun n d => 16 * n + d) 0
        if Nat.pow 2 31 ≤ point then .error .beyondWords
        else if 0x10FFFF < point then .error .beyondCodePoints
        else .ok ([⟨point⟩], c.next.advance length)
    | none, none =>
      if isBreak x then quotedBreaks (c.rest.length + 1) [] c.takeBreak.2 else .error .malformed

/-- White space inside a quoted scalar: a single line end is a space, of several the first is dropped. -/
def quotedSpaces (c : Cursor) : Except Fault (Text × Cursor) := do
  let blanks := c.run isTabOrSpace
  let c := c.advance blanks.length
  if c.head = none then .error .malformed
  if !c.head.any isBreak then return (blanks, c)
  let (lineEnd, c) := c.takeBreak
  let (breaks, c) ← quotedBreaks (c.rest.length + 1) [] c
  let first : Text := if lineEnd ≠ "\n" then lineEnd else if breaks.isEmpty then " " else []
  return (first ++ breaks, c)

/-- The rest of a quoted scalar; the text read before it is given and taken last code point first. -/
def quotedText (double : Bool) : (fuel : Nat) → Text → Cursor → Except Fault (Text × Cursor)
  | 0, _, _ => .error .malformed
  | fuel + 1, read, c =>
    match c.head with
    | none => .error .malformed
    | some x =>
      if isBlankOrEnd (some x) then do
        let (spaces, c) ← quotedSpaces c
        quotedText double fuel (spaces.reverse ++ read) c
      else if !double ∧ x = '\'' then
        if c.peek 1 = some '\'' then quotedText double fuel (x :: read) (c.advance 2) else .ok (read, c.next)
      else if double ∧ x = '"' then .ok (read, c.next)
      else if double ∧ x = '\\' then do
        let (escaped, c) ← scanEscape c.next
        quotedText double fuel (escaped.reverse ++ read) c
      else quotedText double fuel (x :: read) c.next

/-- A quoted scalar, from its quotation mark on. -/
def scanQuoted (double : Bool) (c : Cursor) : Except Fault (Token × Cursor) := do
  let (read, c) ← quotedText double (c.rest.length + 1) [] c.next
  return (.scalar read.reverse false, c)

/-- White space inside a plain scalar, with whether a line end was passed; nothing before a document mark. -/
def plainSpaces (fuel : Nat) (c : Cursor) : Option Text × Bool × Cursor :=
  let blanks := c.run (· == CodePoint.ofChar ' ')
  let c := c.advance blanks.length
  if !c.head.any isBreak then (some blanks, false, c)
  else
    let (lineEnd, c) := c.takeBreak
    let rec more : (fuel : Nat) → Text → Cursor → Option Text × Cursor
      | 0, breaks, c => (some breaks, c)
      | fuel + 1, breaks, c =>
        match c.head with
        | some x =>
          if x = ' ' then more fuel breaks c.next
          else if isBreak x then
            let (next, c) := c.takeBreak
            if c.atDocumentMark then (none, c) else more fuel (breaks ++ next) c
          else (some breaks, c)
        | none => (some breaks, c)
    if c.atDocumentMark then (none, true, c)
    else
      match more fuel [] c with
      | (none, c) => (none, true, c)
      | (some breaks, c) =>
        let first : Text := if lineEnd ≠ "\n" then lineEnd else if breaks.isEmpty then " " else []
        (some (first ++ breaks), true, c)

/-- The part of a plain scalar up to the next white space or indicator. -/
def plainChunk (inFlow : Bool) : Text → Text
  | [] => []
  | x :: rest =>
    let closes (next : Option CodePoint) : Bool :=
      isBlankOrEnd next || (inFlow && next.any (· ∈ (",[]\x7b\x7d" : Text)))
    if isBlankOrEnd (some x) then []
    else if x = ':' ∧ closes rest.head? then []
    else if inFlow ∧ x ∈ (",?[]\x7b\x7d" : Text) then []
    else x :: plainChunk inFlow rest

/-- The chunks of a plain scalar, with whether the last white space passed a line end; the text is given and taken last
code point first. -/
def plainText (inFlow : Bool) (indent : Int) :
    (fuel : Nat) → (read spaces : Text) → Bool → Cursor → Text × Bool × Cursor
  | 0, read, _, broke, c => (read, broke, c)
  | fuel + 1, read, spaces, broke, c =>
    if c.head = some '#' then (read, broke, c)
    else
      let chunk := plainChunk inFlow c.rest
      if chunk.isEmpty then (read, broke, c)
      else
        let read := chunk.reverse ++ (spaces.reverse ++ read)
        match plainSpaces fuel (c.advance chunk.length) with
        | (none, broke, c) => (read, broke, c)
        | (some spaces, broke, c) =>
          if spaces.isEmpty || c.head = some '#' || (!inFlow && (c.column : Int) < indent + 1) then (read, broke, c)
          else plainText inFlow indent fuel read spaces broke c

/-- A plain scalar below an indentation, with whether it ended at a new line. -/
def scanPlain (inFlow : Bool) (indent : Int) (c : Cursor) : Token × Bool × Cursor :=
  let (read, broke, c) := plainText inFlow indent (c.rest.length + 1) [] [] false c
  (.scalar read.reverse true, broke, c)

end PackageExports.Yaml
