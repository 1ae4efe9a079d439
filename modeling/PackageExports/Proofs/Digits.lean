import Mathlib.Data.List.TakeWhile
import Mathlib.Tactic.Lemma
import Mathlib.Tactic.Ring
import PackageExports.Decimal.Written

/-!
# Decimal digits

`Text.natOfDigits` undoes `Text.ofNat`, whose digits begin with a zero only for zero itself; digits that are put
together are shifted by powers of ten. `AllDigits` is what the readers of numbers look for.
-/

namespace PackageExports

lemma CodePoint.isDigit_ofChar {c : Char} (h : c.isDigit = true) : (CodePoint.ofChar c).isDigit = true := by
  simp only [Char.isDigit, Bool.and_eq_true, decide_eq_true_eq, ge_iff_le, UInt32.le_iff_toNat_le] at h
  rw [CodePoint.isDigit, Bool.and_eq_true]
  exact ⟨decide_eq_true h.1, decide_eq_true h.2⟩

namespace Text

/-- Every code point of a text is a digit. -/
def AllDigits (t : Text) : Prop :=
  ∀ c ∈ t, c.isDigit = true

lemma AllDigits.append {a b : Text} (ha : AllDigits a) (hb : AllDigits b) : AllDigits (a ++ b) := by
  intro c hc
  exact (List.mem_append.mp hc).elim (ha c) (hb c)

lemma AllDigits.sublist {a b : Text} (hb : AllDigits b) (h : a.Sublist b) : AllDigits a :=
  fun c hc => hb c (h.subset hc)

lemma allDigits_zeros (n : ℕ) : AllDigits (List.replicate n (CodePoint.ofChar '0')) := by
  intro c hc
  rw [List.eq_of_mem_replicate hc]
  rfl

lemma allDigits_ofNat (n : ℕ) : AllDigits (ofNat n) := by
  intro c hc
  obtain ⟨d, hd, rfl⟩ := List.mem_map.mp hc
  exact CodePoint.isDigit_ofChar (Nat.isDigit_of_mem_toDigits (by norm_num) (by norm_num) hd)

lemma ofNat_ne_nil (n : ℕ) : ofNat n ≠ [] := by
  simp [ofNat]

lemma foldl_digits (t : Text) (n : ℕ) :
    t.foldl (fun n c => 10 * n + c.digitValue) n = n * 10 ^ t.length + natOfDigits t := by
  induction t generalizing n with
  | nil => simp [natOfDigits]
  | cons c t ih =>
    simp only [natOfDigits, List.foldl_cons, List.length_cons] at ih ⊢
    rw [ih, ih (10 * 0 + c.digitValue)]
    ring

lemma natOfDigits_append (a b : Text) :
    natOfDigits (a ++ b) = natOfDigits a * 10 ^ b.length + natOfDigits b := by
  rw [natOfDigits, List.foldl_append, foldl_digits]
  rfl

@[simp] lemma natOfDigits_zeros (n : ℕ) : natOfDigits (List.replicate n (CodePoint.ofChar '0')) = 0 := by
  induction n with
  | zero => rfl
  | succ n ih =>
    rw [List.replicate_succ', natOfDigits_append, ih]
    rfl

@[simp] lemma natOfDigits_ofNat (n : ℕ) : natOfDigits (ofNat n) = n := by
  conv_rhs => rw [← Nat.ofDigitChars_ten_toDigits (n := n)]
  rw [natOfDigits, ofNat, Nat.ofDigitChars_eq_foldl, List.foldl_map]
  rfl

lemma ofNat_of_lt {n : ℕ} (h : n < 10) : ofNat n = [CodePoint.ofChar n.digitChar] := by
  rw [ofNat, Nat.toDigits_of_lt_base h]
  rfl

lemma ofNat_of_le {n : ℕ} (h : 10 ≤ n) : ofNat n = ofNat (n / 10) ++ ofNat (n % 10) := by
  rw [ofNat_of_lt (Nat.mod_lt n (by norm_num)), ofNat, ofNat, Nat.toDigits_of_base_le (by norm_num) h,
    List.map_append]
  rfl

lemma digitChar_ne_zero : ∀ n < 10, n ≠ 0 → CodePoint.ofChar n.digitChar ≠ CodePoint.ofChar '0' := by
  decide

lemma head?_ofNat {n : ℕ} (h : n ≠ 0) : (ofNat n).head? ≠ some (CodePoint.ofChar '0') := by
  induction n using Nat.strong_induction_on with
  | _ n ih =>
    by_cases hlt : n < 10
    · rw [ofNat_of_lt hlt, List.head?_cons]
      exact fun hc => digitChar_ne_zero n hlt h (Option.some.inj hc)
    · have hhead := ih (n / 10) (by omega) (by omega)
      obtain ⟨c, rest, hc⟩ := List.exists_cons_of_ne_nil (ofNat_ne_nil (n / 10))
      rw [hc] at hhead
      rw [ofNat_of_le (by omega), hc]
      exact hhead

/-- What `trimEnd` takes off. -/
lemma exists_trimEnd (c : CodePoint) (t : Text) : ∃ k, t = trimEnd c t ++ List.replicate k c := by
  refine ⟨(t.reverse.takeWhile (· == c)).length, ?_⟩
  have hsplit := List.takeWhile_append_dropWhile (p := (· == c)) (l := t.reverse)
  have hsame : t.reverse.takeWhile (· == c) = List.replicate (t.reverse.takeWhile (· == c)).length c := by
    refine List.eq_replicate_of_mem fun d hd => ?_
    simpa using List.mem_takeWhile_imp hd
  rw [hsame] at hsplit
  have hreverse := congrArg List.reverse hsplit
  rw [List.reverse_append, List.reverse_reverse, List.reverse_replicate] at hreverse
  exact hreverse.symm

lemma lt_pow_decimalLength (n : ℕ) : n < 10 ^ decimalLength n :=
  (Nat.length_toDigits_le_iff (by norm_num) Nat.length_toDigits_pos).mp le_rfl

lemma pow_decimalLength_le {n : ℕ} (h : 0 < n) : 10 ^ (decimalLength n - 1) ≤ n := by
  by_cases h1 : decimalLength n - 1 = 0
  · rw [h1]
    exact h
  · by_contra hlt
    have := (Nat.length_toDigits_le_iff (b := 10) (n := n) (by norm_num) (Nat.pos_of_ne_zero h1)).mpr (by omega)
    rw [← decimalLength] at this
    omega

lemma decimalLength_pos (n : ℕ) : 0 < decimalLength n :=
  Nat.length_toDigits_pos

lemma takeWhile_digits {a b : Text} (ha : AllDigits a) (hb : ∀ c, b.head? = some c → c.isDigit = false) :
    (a ++ b).takeWhile CodePoint.isDigit = a := by
  rw [List.takeWhile_append_of_pos ha]
  cases b with
  | nil => simp
  | cons c b => simp [hb c rfl]

lemma dropWhile_digits {a b : Text} (ha : AllDigits a) (hb : ∀ c, b.head? = some c → c.isDigit = false) :
    (a ++ b).dropWhile CodePoint.isDigit = b := by
  rw [List.dropWhile_append_of_pos ha]
  cases b with
  | nil => simp
  | cons c b => simp [hb c rfl]

lemma integer?_plus {t : Text} (h : AllDigits t) (hne : t ≠ []) :
    integer? (CodePoint.ofChar '+' :: t) = some (natOfDigits t : ℤ) := by
  have hall : t.all CodePoint.isDigit = true := List.all_eq_true.mpr h
  have hempty : t.isEmpty = false := List.isEmpty_eq_false_iff.mpr hne
  have hsign : ¬CodePoint.ofChar '+' = CodePoint.ofChar '-' := by decide
  simp only [integer?, splitSign, hsign, if_true, if_false, hall, hempty, Bool.not_true, Bool.or_self,
    Bool.false_eq_true]

lemma integer?_minus {t : Text} (h : AllDigits t) (hne : t ≠ []) :
    integer? (CodePoint.ofChar '-' :: t) = some (-(natOfDigits t : ℤ)) := by
  have hall : t.all CodePoint.isDigit = true := List.all_eq_true.mpr h
  have hempty : t.isEmpty = false := List.isEmpty_eq_false_iff.mpr hne
  simp only [integer?, splitSign, if_true, if_false, hall, hempty, Bool.not_true, Bool.or_self,
    Bool.false_eq_true]

end Text

end PackageExports
