import PackageExports.Keyed
import PackageExports.Yaml.Token

/-!
# Indentation and implicit keys

A YAML text becomes a row of tokens in which the starts and ends of block collections are spelled out. A colon may
make a key of what stands before it on the same line, so the place of each token that may be a key is remembered, one
for each level of flow collections; the tokens of the key are put in there afterwards.

Main definitions: `Yaml.Scanner`, `Yaml.Scanner.step`, `Yaml.scan`.
-/

namespace PackageExports.Yaml

/-- A place where a key may have begun: how many tokens came before it, and where it is. -/
structure KeyPlace where
  token : Nat
  required : Bool
  cursor : Cursor

/-- The state between two tokens. -/
structure Scanner where
  cursor : Cursor
  tokens : Array Token := #[]
  flowLevel : Nat := 0
  /-- The column of the innermost block collection, and those of the collections around it. -/
  indent : Int := -1
  outer : List Int := []
  /-- Whether a key may begin here without a mark of its own. -/
  keyAllowed : Bool := true
  places : Keyed Nat KeyPlace := []

namespace Scanner

def emit (s : Scanner) (t : Token) : Scanner :=
  { s with tokens := s.tokens.push t }

/-- The state with a token put in after the first so many. -/
def emitAt (s : Scanner) (index : Nat) (t : Token) : Scanner :=
  { s with tokens := s.tokens.insertIdxIfInBounds index t }

def moveTo (s : Scanner) (c : Cursor) : Scanner :=
  { s with cursor := c }

/-- The state with block collections closed down to a column. -/
def unwind (s : Scanner) (column : Int) : Scanner :=
  if s.flowLevel ≠ 0 then s else close s.outer s
where
  /-- Closes the innermost collection while it is further in than the column. -/
  close : List Int → Scanner → Scanner
    | [], s => s
    | outer :: rest, s =>
      if column < s.indent then close rest { (s.emit .blockEnd) with indent := outer, outer := rest } else s

/-- The state after a block collection began at a column, and whether it did. -/
def indentTo (s : Scanner) (column : Nat) : Scanner × Bool :=
  if s.indent < column then ({ s with indent := column, outer := s.indent :: s.outer }, true) else (s, false)

/-- Gives up the place of a key on this level; a key that must be there is missing then. -/
def dropPlace (s : Scanner) : Except Fault Scanner :=
  match s.places.get? s.flowLevel with
  | some place =>
    if place.required then .error .malformed
    else .ok { s with places := s.places.filter fun (level, _) => level ≠ s.flowLevel }
  | none => .ok s

/-- Remembers that a key may begin here. -/
def savePlace (s : Scanner) : Except Fault Scanner := do
  if !s.keyAllowed then return s
  let s ← s.dropPlace
  let required := s.flowLevel = 0 ∧ s.indent = s.cursor.column
  return { s with places := s.places.insert s.flowLevel ⟨s.tokens.size, required, s.cursor⟩ }

/-- Whether a key that began at a place would go over several lines or be too long. -/
def isStale (s : Scanner) (place : KeyPlace) : Bool :=
  place.cursor.line ≠ s.cursor.line || 1024 < s.cursor.index - place.cursor.index

/-- Gives up the places of keys that would go over several lines or be too long. -/
def dropStale (s : Scanner) : Except Fault Scanner :=
  if s.places.any fun (_, place) => s.isStale place && place.required then .error .malformed
  else .ok { s with places := s.places.filter fun (_, place) => !s.isStale place }

/-- The tokens before all those that may still turn out to be keys. -/
def settled (s : Scanner) : List Token :=
  let pending := s.places.filter fun (_, place) => !s.isStale place
  s.tokens.toList.take (pending.foldl (fun least (_, place) => min least place.token) s.tokens.size)

/-- The state after spaces, comments and line ends; in block collections a key may begin on a new line. -/
def skipToToken : (fuel : Nat) → Scanner → Scanner
  | 0, s => s
  | fuel + 1, s =>
    let c := s.cursor.skipSpaces.skipComment
    if c.head.any isBreak then
      skipToToken fuel { s with cursor := c.takeBreak.2, keyAllowed := s.keyAllowed || s.flowLevel = 0 }
    else s.moveTo c

/-- A mark between documents or a directive ends all block collections. -/
def endBlocks (s : Scanner) : Except Fault Scanner := do
  let s ← (s.unwind (-1)).dropPlace
  return { s with keyAllowed := false }

def openFlow (s : Scanner) (t : Token) : Except Fault Scanner := do
  let s ← s.savePlace
  return { (s.emit t).moveTo s.cursor.next with flowLevel := s.flowLevel + 1, keyAllowed := true }

def closeFlow (s : Scanner) (t : Token) : Except Fault Scanner := do
  let s ← s.dropPlace
  return { (s.emit t).moveTo s.cursor.next with flowLevel := s.flowLevel - 1, keyAllowed := false }

/-- In a block collection, checks that an entry may begin here, and begins the collection if need be. -/
def beginBlock (s : Scanner) (t : Token) : Except Fault Scanner :=
  if s.flowLevel ≠ 0 then .ok s
  else if !s.keyAllowed then .error .malformed
  else
    let (s, began) := s.indentTo s.cursor.column
    .ok (if began then s.emit t else s)

/-- The mark of an entry of a block sequence. -/
def blockEntry (s : Scanner) : Except Fault Scanner := do
  let s ← ({ ← s.beginBlock .blockSequenceStart with keyAllowed := true } : Scanner).dropPlace
  return (s.emit .blockEntry).moveTo s.cursor.next

/-- The mark of a key. -/
def explicitKey (s : Scanner) : Except Fault Scanner := do
  let s ← ({ ← s.beginBlock .blockMappingStart with keyAllowed := s.flowLevel = 0 } : Scanner).dropPlace
  return (s.emit .key).moveTo s.cursor.next

/-- The mark of a value: what stood at the remembered place is its key. -/
def mappingValue (s : Scanner) : Except Fault Scanner := do
  let s ←
    match s.places.get? s.flowLevel with
    | some place => do
      let s := { s with places := s.places.filter fun (level, _) => level ≠ s.flowLevel, keyAllowed := false }
      let s := s.emitAt place.token .key
      let (s, began) := if s.flowLevel = 0 then s.indentTo place.cursor.column else (s, false)
      pure (if began then s.emitAt place.token .blockMappingStart else s)
    | none => do
      let s ← s.beginBlock .blockMappingStart
      ({ s with keyAllowed := s.flowLevel = 0 } : Scanner).dropPlace
  return (s.emit .value).moveTo s.cursor.next

/-- A token that may be a key, as `read` finds it. -/
def keyLike (s : Scanner) (read : Cursor → Except Fault (Token × Cursor)) : Except Fault Scanner := do
  let s ← s.savePlace
  let (t, c) ← read s.cursor
  return { (s.emit t).moveTo c with keyAllowed := false }

def blockScalar (s : Scanner) (folded : Bool) : Except Fault Scanner := do
  let s ← ({ s with keyAllowed := true } : Scanner).dropPlace
  let (t, c) ← scanBlockScalar folded s.indent s.cursor
  return (s.emit t).moveTo c

def plain (s : Scanner) : Except Fault Scanner := do
  let s ← s.savePlace
  let (t, broke, c) := scanPlain (s.flowLevel ≠ 0) s.indent s.cursor
  return { (s.emit t).moveTo c with keyAllowed := broke }

/-- Whether a plain scalar may begin at the cursor. -/
def plainMayBegin (s : Scanner) : Bool :=
  match s.cursor.head with
  | none => false
  | some x =>
    let indicators : Text := "-?:,[]\x7b\x7d#&*!|>\x27\"%@\x60"
    (!isBlankOrEnd (some x) && x ∉ indicators) ||
      (!isBlankOrEnd (s.cursor.peek 1) && (x == '-' || (s.flowLevel = 0 && (x == '?' || x == ':'))))

/-- Reads the next token. Nothing is left of the state at the end of the text. -/
def step (fuel : Nat) (s : Scanner) : Except Fault (Scanner ⊕ List Token) := do
  let s := s.skipToToken fuel
  let s := (← s.dropStale).unwind s.cursor.column
  let c := s.cursor
  match c.head with
  | none => return .inr (← s.endBlocks).tokens.toList
  | some x =>
    let atStart := c.column = 0
    let followed := isBlankOrEnd (c.peek 1) || s.flowLevel ≠ 0
    let next ←
      if x = '%' ∧ atStart then do
        let s ← s.endBlocks
        let (t, c) ← scanDirective c
        pure ((s.emit t).moveTo c)
      else if atStart ∧ c.atMark "---" then do
        let s ← s.endBlocks
        pure ((s.emit .documentStart).moveTo (c.advance 3))
      else if atStart ∧ c.atMark "..." then do
        let s ← s.endBlocks
        pure ((s.emit .documentEnd).moveTo (c.advance 3))
      else if x = '[' then s.openFlow .flowSequenceStart
      else if x = '{' then s.openFlow .flowMappingStart
      else if x = ']' then s.closeFlow .flowSequenceEnd
      else if x = '}' then s.closeFlow .flowMappingEnd
      else if x = ',' then do
        let s ← ({ s with keyAllowed := true } : Scanner).dropPlace
        pure ((s.emit .flowEntry).moveTo c.next)
      else if x = '-' ∧ isBlankOrEnd (c.peek 1) then s.blockEntry
      else if x = '?' ∧ followed then s.explicitKey
      else if x = ':' ∧ followed then s.mappingValue
      else if x = '*' then s.keyLike fun c => do
        let (name, c) ← scanAnchorName c
        pure (.alias name, c)
      else if x = '&' then s.keyLike fun c => do
        let (name, c) ← scanAnchorName c
        pure (.anchor name, c)
      else if x = '!' then s.keyLike scanTag
      else if x = '|' ∧ s.flowLevel = 0 then s.blockScalar false
      else if x = '>' ∧ s.flowLevel = 0 then s.blockScalar true
      else if x = '\'' then s.keyLike (scanQuoted false)
      else if x = '"' then s.keyLike (scanQuoted true)
      else if s.plainMayBegin then s.plain
      else .error .malformed
    return .inl next

/-- Reads tokens to the end of the text, or to a fault; tokens that settled before it stand all the same. -/
def finish : (fuel : Nat) → Scanner → List Token × Option Fault
  | 0, s => (s.settled, some .malformed)
  | fuel + 1, s =>
    match s.step (fuel + 1) with
    | .ok (.inl next) => finish fuel next
    | .ok (.inr tokens) => (tokens, none)
    | .error fault => (s.settled, some fault)

end Scanner

/-- Whether a code point may stand in a YAML text. -/
def isPrintable (c : CodePoint) : Bool :=
  c.val == 9 || c.val == 10 || c.val == 13 || (0x20 ≤ c.val && c.val ≤ 0x7E) || c.val == 0x85 ||
    (0xA0 ≤ c.val && c.val ≤ 0xD7FF) || (0xE000 ≤ c.val && c.val ≤ 0xFFFD) || 0x10000 ≤ c.val

/-- The tokens of a YAML text, with the fault after them if there is one; a byte order mark at the start of the text is
passed over. -/
def scan (t : Text) : List Token × Option Fault :=
  if !t.all isPrintable then ([], some .malformed)
  else
    let c : Cursor := { rest := t }
    let c := if c.head = some ⟨0xFEFF⟩ then c.next else c
    Scanner.finish (t.length + 2) { cursor := c }

end PackageExports.Yaml
