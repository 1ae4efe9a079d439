import PackageExports.Text.Basic

/-!
# UTF-8

Bytes to text and back. One automaton reads the bytes; `Utf8.decode?` refuses ill-formed input, and
`Utf8.decodeReplacing` puts U+FFFD in place of each maximal ill-formed part. Surrogates have no encoding.

Main definitions: `Utf8.decode?`, `Utf8.decodeReplacing`, `Utf8.encode?`.
-/

namespace PackageExports.Utf8

/-- What the bytes read so far of a sequence demand of the next one. -/
structure Pending where
  /-- How many bytes are still owed. -/
  owed : Nat
  /-- The bits collected so far. -/
  bits : Nat
  /-- The least and greatest byte that may come next. -/
  least : Nat
  greatest : Nat

/-- The outcome of a byte where no sequence is under way: nothing yet, or a finished part. -/
def lead (b : Nat) : Sum Pending (Option CodePoint) :=
  if b < 0x80 then .inr (some ⟨b⟩)
  else if b < 0xC2 then .inr none
  else if b < 0xE0 then .inl ⟨1, b - 0xC0, 0x80, 0xBF⟩
  else if b < 0xF0 then .inl ⟨2, b - 0xE0, if b = 0xE0 then 0xA0 else 0x80, if b = 0xED then 0x9F else 0xBF⟩
  else if b < 0xF5 then .inl ⟨3, b - 0xF0, if b = 0xF0 then 0x90 else 0x80, if b = 0xF4 then 0x8F else 0xBF⟩
  else .inr none

/-- The parts of a byte list: a code point for each well-formed sequence, nothing for each ill-formed part. -/
def parts : Option Pending → List UInt8 → List (Option CodePoint)
  | none, [] => []
  | some _, [] => [none]
  | none, b :: bs =>
    match lead b.toNat with
    | .inl p => parts (some p) bs
    | .inr c => c :: parts none bs
  | some p, b :: bs =>
    if p.least ≤ b.toNat ∧ b.toNat ≤ p.greatest then
      let bits := p.bits * 64 + (b.toNat - 0x80)
      if p.owed = 1 then some ⟨bits⟩ :: parts none bs
      else parts (some ⟨p.owed - 1, bits, 0x80, 0xBF⟩) bs
    else
      match lead b.toNat with
      | .inl q => none :: parts (some q) bs
      -- a byte that breaks a sequence off begins the next one itself
      | .inr c => none :: c :: parts none bs

def decode? (bytes : List UInt8) : Option Text :=
  (parts none bytes).mapM id

/-- The text of any bytes, each ill-formed part read as U+FFFD. -/
def decodeReplacing (bytes : List UInt8) : Text :=
  (parts none bytes).map fun c => c.getD ⟨0xFFFD⟩

def encodePoint? (c : CodePoint) : Option (List UInt8) :=
  let tail (shift : Nat) : UInt8 := UInt8.ofNat (0x80 + (c.val >>> shift) % 64)
  if c.val < 0x80 then some [UInt8.ofNat c.val]
  else if c.val < 0x800 then some [UInt8.ofNat (0xC0 + c.val / 64), tail 0]
  else if c.isSurrogate then none
  else if c.val < 0x10000 then some [UInt8.ofNat (0xE0 + c.val / 4096), tail 6, tail 0]
  else if c.val < 0x110000 then some [UInt8.ofNat (0xF0 + c.val / 262144), tail 12, tail 6, tail 0]
  else none

def encode? (t : Text) : Option (List UInt8) :=
  (t.mapM encodePoint?).map List.flatten

/-- How many bytes a text takes up when written out, a surrogate counted as three. -/
def byteLength (t : Text) : Nat :=
  t.foldl (fun n c => n + if c.val < 0x80 then 1 else if c.val < 0x800 then 2 else if c.val < 0x10000 then 3 else 4) 0

end PackageExports.Utf8
