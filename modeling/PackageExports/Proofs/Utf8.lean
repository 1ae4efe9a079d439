import Mathlib.Data.List.Basic
import Mathlib.Tactic.Lemma
import PackageExports.Text.Newline
import PackageExports.Text.Utf8

/-!
# Texts that come back from their bytes

Exactly the texts of Unicode scalar values have an encoding, and decoding it gives the text back. A text without
carriage returns is also left alone by the unification of line ends, so it can be written to a file and read again.
-/

namespace PackageExports

/-- A code point that has an encoding: a surrogate has none, nor has a number above the last code point. -/
def CodePoint.IsScalar (c : CodePoint) : Prop :=
  c.val < 0x110000 ∧ c.isSurrogate = false

instance (c : CodePoint) : Decidable c.IsScalar :=
  inferInstanceAs (Decidable (_ ∧ _))

namespace Utf8

lemma surrogate_iff (c : CodePoint) : c.isSurrogate = true ↔ 0xD800 ≤ c.val ∧ c.val ≤ 0xDFFF := by
  simp only [CodePoint.isSurrogate, CodePoint.isHighSurrogate, CodePoint.isLowSurrogate, Bool.or_eq_true,
    Bool.and_eq_true, decide_eq_true_eq]
  omega

lemma isScalar_iff (c : CodePoint) :
    c.IsScalar ↔ c.val < 0x110000 ∧ ¬(0xD800 ≤ c.val ∧ c.val ≤ 0xDFFF) := by
  rw [← surrogate_iff, CodePoint.IsScalar, Bool.not_eq_true]

lemma encodePoint?_isSome (c : CodePoint) : (encodePoint? c).isSome ↔ c.IsScalar := by
  rw [isScalar_iff]
  unfold encodePoint?
  by_cases hs : c.isSurrogate = true
  · have h := (surrogate_iff c).mp hs
    simp [hs, show ¬c.val < 0x80 by omega, show ¬c.val < 0x800 by omega, h]
  · have h := mt (surrogate_iff c).mpr hs
    split_ifs <;> simp <;> omega

lemma toNat_ofNat_byte {n : Nat} (h : n < 256) : (UInt8.ofNat n).toNat = n := by
  rw [UInt8.toNat_ofNat']
  exact Nat.mod_eq_of_lt h

lemma parts_lead {b : Nat} {p : Pending} (hb : b < 256) (h : lead b = .inl p) (rest : List UInt8) :
    parts none (UInt8.ofNat b :: rest) = parts (some p) rest := by
  rw [parts, toNat_ofNat_byte hb, h]

lemma parts_next {b owed bits least greatest : Nat} (hb : b < 256) (hl : least ≤ b) (hg : b ≤ greatest)
    (rest : List UInt8) :
    parts (some ⟨owed + 2, bits, least, greatest⟩) (UInt8.ofNat b :: rest) =
      parts (some ⟨owed + 1, bits * 64 + (b - 0x80), 0x80, 0xBF⟩) rest := by
  rw [parts, toNat_ofNat_byte hb, if_pos ⟨hl, hg⟩]
  rfl

lemma parts_last {b bits least greatest : Nat} (hb : b < 256) (hl : least ≤ b) (hg : b ≤ greatest)
    (rest : List UInt8) :
    parts (some ⟨1, bits, least, greatest⟩) (UInt8.ofNat b :: rest) =
      some ⟨bits * 64 + (b - 0x80)⟩ :: parts none rest := by
  rw [parts, toNat_ofNat_byte hb, if_pos ⟨hl, hg⟩]
  rfl

/-- The automaton reads the bytes of one code point and is back at its start. -/
lemma parts_encodePoint? {c : CodePoint} {bytes : List UInt8} (h : encodePoint? c = some bytes)
    (rest : List UInt8) : parts none (bytes ++ rest) = some c :: parts none rest := by
  have hc : c.val < 0x110000 ∧ ¬(0xD800 ≤ c.val ∧ c.val ≤ 0xDFFF) := by
    rw [← isScalar_iff, ← encodePoint?_isSome, h]
    rfl
  unfold encodePoint? at h
  simp only [Nat.shiftRight_eq_div_pow, Nat.reducePow, Nat.div_one] at h
  split_ifs at h with h1 h2 h3 h4
  · obtain rfl := Option.some.inj h
    have hlead : lead c.val = .inr (some c) := by simp [lead, h1]
    rw [List.singleton_append, parts, toNat_ofNat_byte (by omega), hlead]
  · obtain rfl := Option.some.inj h
    have hlead : lead (0xC0 + c.val / 64) = .inl ⟨1, c.val / 64, 0x80, 0xBF⟩ := by
      simp [lead, show ¬0xC0 + c.val / 64 < 0x80 by omega, show ¬0xC0 + c.val / 64 < 0xC2 by omega,
        show 0xC0 + c.val / 64 < 0xE0 by omega]
    have hv : c.val / 64 * 64 + (0x80 + c.val % 64 - 0x80) = c.val := by omega
    rw [List.cons_append, parts_lead (by omega) hlead, List.singleton_append,
      parts_last (by omega) (by omega) (by omega), hv]
  · obtain rfl := Option.some.inj h
    have hlead : lead (0xE0 + c.val / 4096) = .inl ⟨2, c.val / 4096,
        if 0xE0 + c.val / 4096 = 0xE0 then 0xA0 else 0x80, if 0xE0 + c.val / 4096 = 0xED then 0x9F else 0xBF⟩ := by
      simp [lead, show ¬0xE0 + c.val / 4096 < 0x80 by omega, show ¬0xE0 + c.val / 4096 < 0xC2 by omega,
        show ¬0xE0 + c.val / 4096 < 0xE0 by omega, show 0xE0 + c.val / 4096 < 0xF0 by omega]
    have hv : (c.val / 4096 * 64 + (0x80 + c.val / 64 % 64 - 0x80)) * 64 + (0x80 + c.val % 64 - 0x80) = c.val := by
      omega
    rw [List.cons_append, parts_lead (by omega) hlead, List.cons_append,
      parts_next (by omega) (by split_ifs <;> omega) (by split_ifs <;> omega), List.singleton_append,
      parts_last (by omega) (by omega) (by omega), hv]
  · obtain rfl := Option.some.inj h
    have hlead : lead (0xF0 + c.val / 262144) = .inl ⟨3, c.val / 262144,
        if 0xF0 + c.val / 262144 = 0xF0 then 0x90 else 0x80,
        if 0xF0 + c.val / 262144 = 0xF4 then 0x8F else 0xBF⟩ := by
      simp [lead, show ¬0xF0 + c.val / 262144 < 0x80 by omega, show ¬0xF0 + c.val / 262144 < 0xC2 by omega,
        show ¬0xF0 + c.val / 262144 < 0xE0 by omega, show ¬0xF0 + c.val / 262144 < 0xF0 by omega,
        show 0xF0 + c.val / 262144 < 0xF5 by omega]
    have hv : ((c.val / 262144 * 64 + (0x80 + c.val / 4096 % 64 - 0x80)) * 64 +
        (0x80 + c.val / 64 % 64 - 0x80)) * 64 + (0x80 + c.val % 64 - 0x80) = c.val := by
      omega
    rw [List.cons_append, parts_lead (by omega) hlead, List.cons_append,
      parts_next (by omega) (by split_ifs <;> omega) (by split_ifs <;> omega), List.cons_append,
      parts_next (by omega) (by omega) (by omega), List.singleton_append,
      parts_last (by omega) (by omega) (by omega), hv]

lemma encode?_cons (c : CodePoint) (t : Text) :
    encode? (c :: t) = (encodePoint? c).bind fun bytes => (encode? t).map (bytes ++ ·) := by
  unfold encode?
  rw [List.mapM_cons]
  cases encodePoint? c with
  | none => rfl
  | some bytes =>
    cases t.mapM encodePoint? with
    | none => rfl
    | some rest => rfl

lemma encode?_isSome (t : Text) : (encode? t).isSome ↔ ∀ c ∈ t, c.IsScalar := by
  induction t with
  | nil => simp [encode?]
  | cons c t ih =>
    rw [encode?_cons, List.forall_mem_cons, ← ih, ← encodePoint?_isSome]
    cases encodePoint? c <;> cases encode? t <;> simp

lemma parts_encode? {t : Text} {bytes : List UInt8} (h : encode? t = some bytes) :
    parts none bytes = t.map some := by
  induction t generalizing bytes with
  | nil =>
    obtain rfl : [] = bytes := by simpa [encode?] using h
    rfl
  | cons c t ih =>
    rw [encode?_cons] at h
    obtain ⟨first, hfirst, h⟩ := Option.bind_eq_some_iff.mp h
    obtain ⟨rest, hrest, rfl⟩ := Option.map_eq_some_iff.mp h
    rw [parts_encodePoint? hfirst, ih hrest, List.map_cons]

lemma decode?_encode? {t : Text} {bytes : List UInt8} (h : encode? t = some bytes) :
    decode? bytes = some t := by
  rw [decode?, parts_encode? h]
  clear h
  induction t with
  | nil => rfl
  | cons c t ih =>
    rw [List.map_cons, List.mapM_cons, ih]
    rfl

end Utf8

lemma Text.unifyNewlines_of_no_return {t : Text} (h : CodePoint.ofChar '\r' ∉ t) : Text.unifyNewlines t = t := by
  unfold Text.unifyNewlines
  induction t with
  | nil => rfl
  | cons c t ih =>
    obtain ⟨hc, ht⟩ := not_or.mp (mt List.mem_cons.mpr h)
    simp [Text.unifyNewlinesAfter, Ne.symm hc, ih ht]

end PackageExports
