import Mathlib.Algebra.Order.Field.Power
import Mathlib.Data.Nat.Log
import Mathlib.Data.Rat.Cast.Order
import Mathlib.Tactic.FieldSimp
import Mathlib.Tactic.Linarith
import Mathlib.Tactic.NormNum
import Mathlib.Tactic.Positivity
import Mathlib.Tactic.Ring
import PackageExports.Decimal.Binary64

/-!
# Rounding to binary floating point

`Binary64.ofRatio` gives the number in whose rounding interval a quotient lies, and it gives numbers in canonical form
only. The quotient is a rational number here, so that the two signs of an exponent need no cases of their own.
-/

namespace PackageExports

lemma roundedQuotient_eq {n d m : ℕ} (hd : 0 < d) (hl : 2 * m * d ≤ 2 * n + d) (hh : 2 * n ≤ (2 * m + 1) * d)
    (hodd : m % 2 = 1 → 2 * m * d < 2 * n + d ∧ 2 * n < (2 * m + 1) * d) : roundedQuotient n d = m := by
  have hn : n = d * (n / d) + n % d := (Nat.div_add_mod n d).symm
  have hr : n % d < d := Nat.mod_lt n hd
  unfold roundedQuotient
  generalize n / d = q at hn ⊢
  generalize n % d = r at hn hr ⊢
  have hqm : q ≤ m := by
    by_contra h
    have : d * (m + 1) ≤ d * q := Nat.mul_le_mul_left d (by omega)
    nlinarith
  have hmq : m ≤ q + 1 := by
    by_contra h
    have : d * (q + 2) ≤ d * m := Nat.mul_le_mul_left d (by omega)
    nlinarith
  rcases Nat.lt_or_ge q m with h | h
  · obtain rfl : m = q + 1 := by omega
    have hlow : d ≤ 2 * r := by nlinarith
    by_cases hs : d < 2 * r
    · simp [hs]
    · have heq : 2 * r = d := by omega
      have hq : q % 2 = 1 := by
        by_contra hq
        have := (hodd (by omega)).1
        nlinarith
      simp [heq, hq]
  · obtain rfl : q = m := by omega
    have hhigh : 2 * r ≤ d := by nlinarith
    have hcond : ¬(d < 2 * r ∨ 2 * r = d ∧ q % 2 = 1) := by
      rintro (hs | ⟨heq, hq⟩)
      · omega
      · have := (hodd hq).2
        nlinarith
    exact if_neg hcond

lemma le_roundedQuotient {n d a : ℕ} (hd : 0 < d) (h : a * d ≤ n) : a ≤ roundedQuotient n d := by
  have hq : a ≤ n / d := (Nat.le_div_iff_mul_le hd).mpr h
  unfold roundedQuotient
  dsimp only
  split_ifs <;> omega

lemma roundedQuotient_le {n d b : ℕ} (h : n < b * d) : roundedQuotient n d ≤ b := by
  have hd : 0 < d := Nat.pos_of_mul_pos_left (Nat.zero_lt_of_lt h)
  have hq : n / d < b := (Nat.div_lt_iff_lt_mul hd).mpr h
  unfold roundedQuotient
  dsimp only
  split_ifs <;> omega

namespace Binary64

/-- The numbers in canonical form: the mantissa is as large as the least exponent allows. -/
structure Canonical (m : ℕ) (e : ℤ) : Prop where
  lt : m < 2 ^ 53
  least : leastExponent ≤ e
  greatest : e ≤ greatestExponent
  normal : 2 ^ 52 ≤ m ∨ e = leastExponent

/-- How far below its value the interval of a number goes, in units of its last place. Below the least mantissa the
next number is nearer. -/
def gap (m : ℕ) (e : ℤ) : ℚ :=
  if m = 2 ^ 52 ∧ leastExponent < e then 1 / 4 else 1 / 2

/-- The rationals that are nearest to a number, the bounds being among them if its mantissa is even. -/
structure RoundsTo (q : ℚ) (m : ℕ) (e : ℤ) : Prop where
  low : (m - gap m e) * 2 ^ e ≤ q
  high : q ≤ (m + 1 / 2) * 2 ^ e
  odd : m % 2 = 1 → (m - gap m e) * 2 ^ e < q ∧ q < (m + 1 / 2) * 2 ^ e

lemma gap_le (m : ℕ) (e : ℤ) : gap m e ≤ 1 / 2 := by
  unfold gap
  split_ifs <;> norm_num

lemma gap_pos (m : ℕ) (e : ℤ) : 0 < gap m e := by
  unfold gap
  split_ifs <;> norm_num

lemma RoundsTo.pos {q : ℚ} {m : ℕ} {e : ℤ} (h : RoundsTo q m e) (hm : 0 < m) : 0 < q := by
  have hp : (0 : ℚ) < 2 ^ e := by positivity
  have hm' : (1 : ℚ) ≤ m := by exact_mod_cast hm
  have := gap_le m e
  exact lt_of_lt_of_le (mul_pos (by linarith) hp) h.low

lemma scaledMantissa_eq_quotient (num den : ℕ) (hden : 0 < den) (e : ℤ) :
    ∃ n d : ℕ, 0 < d ∧ scaledMantissa num den e = roundedQuotient n d ∧
      (n : ℚ) * 2 ^ e = num / den * d := by
  have hden' : (den : ℚ) ≠ 0 := by exact_mod_cast hden.ne'
  by_cases he : e < 0
  · refine ⟨num * 2 ^ e.natAbs, den, hden, by simp [scaledMantissa, he], ?_⟩
    have hpow : (2 : ℚ) ^ e = (2 ^ e.natAbs)⁻¹ := by
      rw [← zpow_natCast, ← zpow_neg, show (-(e.natAbs : ℤ)) = e by omega]
    rw [hpow, Nat.cast_mul, Nat.cast_pow, Nat.cast_ofNat]
    field_simp
  · refine ⟨num, den * 2 ^ e.natAbs, by positivity, by simp [scaledMantissa, he], ?_⟩
    have hpow : (2 : ℚ) ^ e = 2 ^ e.natAbs := by
      rw [← zpow_natCast, show ((e.natAbs : ℤ)) = e by omega]
    rw [hpow, Nat.cast_mul, Nat.cast_pow, Nat.cast_ofNat]
    field_simp

lemma scaledMantissa_eq {num den m : ℕ} {e : ℤ} (hden : 0 < den)
    (hl : ((m : ℚ) - 1 / 2) * 2 ^ e ≤ num / den) (hh : (num : ℚ) / den ≤ (m + 1 / 2) * 2 ^ e)
    (hodd : m % 2 = 1 → ((m : ℚ) - 1 / 2) * 2 ^ e < num / den ∧ (num : ℚ) / den < (m + 1 / 2) * 2 ^ e) :
    scaledMantissa num den e = m := by
  obtain ⟨n, d, hd, heq, hnd⟩ := scaledMantissa_eq_quotient num den hden e
  have hd' : (0 : ℚ) < d := by exact_mod_cast hd
  have hp : (0 : ℚ) < 2 ^ e := by positivity
  -- Both sides of each bound are multiplied by `2 d` and freed of the power of two.
  have low {x : ℚ} : (x - 1 / 2) * 2 ^ e ≤ num / den ↔ 2 * x * d ≤ 2 * n + d := by
    rw [← mul_le_mul_iff_left₀ hd', ← hnd, show (x - 1 / 2) * 2 ^ e * d = (x - 1 / 2) * d * 2 ^ e by ring,
      mul_le_mul_iff_left₀ hp]
    constructor <;> intro h <;> linarith
  have high {x : ℚ} : (num : ℚ) / den ≤ (x + 1 / 2) * 2 ^ e ↔ 2 * n ≤ (2 * x + 1) * d := by
    rw [← mul_le_mul_iff_left₀ hd', ← hnd, show (x + 1 / 2) * 2 ^ e * d = (x + 1 / 2) * d * 2 ^ e by ring,
      mul_le_mul_iff_left₀ hp]
    constructor <;> intro h <;> linarith
  rw [heq]
  refine roundedQuotient_eq hd (by exact_mod_cast low.mp hl) (by exact_mod_cast high.mp hh) ?_
  intro hm
  obtain ⟨h1, h2⟩ := hodd hm
  constructor
  · by_contra h
    have h' : (2 * n + d : ℚ) ≤ 2 * m * d := by exact_mod_cast Nat.le_of_not_lt h
    have hle : (num : ℚ) / den ≤ (m - 1 + 1 / 2) * 2 ^ e := high.mpr (by linarith)
    rw [show ((m : ℚ) - 1 + 1 / 2) = m - 1 / 2 by ring] at hle
    linarith
  · by_contra h
    have h' : ((2 * m + 1) * d : ℚ) ≤ 2 * n := by exact_mod_cast Nat.le_of_not_lt h
    have hle : ((m : ℚ) + 1 - 1 / 2) * 2 ^ e ≤ num / den := low.mpr (by linarith)
    rw [show ((m : ℚ) + 1 - 1 / 2) = m + 1 / 2 by ring] at hle
    linarith

lemma two_zpow_add (a b : ℤ) : (2 : ℚ) ^ (a + b) = 2 ^ a * 2 ^ b :=
  zpow_add₀ two_ne_zero a b

/-- The exponent of a quotient puts 53 bits before the point, as far as the least exponent allows. -/
lemma exponentFor_spec {num den : ℕ} (hnum : 0 < num) (hden : 0 < den) :
    ∃ g : ℤ, exponentFor num den = max leastExponent g ∧
      (2 : ℚ) ^ (52 + g) ≤ num / den ∧ (num : ℚ) / den < 2 ^ (53 + g) := by
  have hden' : (0 : ℚ) < den := by exact_mod_cast hden
  have hn1 : (2 : ℚ) ^ (Nat.log2 num : ℤ) ≤ num := by exact_mod_cast Nat.log2_self_le hnum.ne'
  have hn2 : (num : ℚ) < 2 ^ (Nat.log2 num + 1 : ℤ) := by exact_mod_cast Nat.lt_log2_self (n := num)
  have hd1 : (2 : ℚ) ^ (Nat.log2 den : ℤ) ≤ den := by exact_mod_cast Nat.log2_self_le hden.ne'
  have hd2 : (den : ℚ) < 2 ^ (Nat.log2 den + 1 : ℤ) := by exact_mod_cast Nat.lt_log2_self (n := den)
  set guess : ℤ := (Nat.log2 num : ℤ) - (Nat.log2 den : ℤ) - 52 with hguess
  have hlow : (2 : ℚ) ^ (51 + guess) ≤ num / den := by
    rw [le_div_iff₀ hden']
    calc (2 : ℚ) ^ (51 + guess) * den ≤ 2 ^ (51 + guess) * 2 ^ (Nat.log2 den + 1 : ℤ) := by gcongr
      _ = 2 ^ (Nat.log2 num : ℤ) := by rw [← two_zpow_add]; congr 1; omega
      _ ≤ num := hn1
  have hhigh : (num : ℚ) / den < 2 ^ (53 + guess) := by
    rw [div_lt_iff₀ hden']
    calc (num : ℚ) < 2 ^ (Nat.log2 num + 1 : ℤ) := hn2
      _ = 2 ^ (53 + guess) * 2 ^ (Nat.log2 den : ℤ) := by rw [← two_zpow_add]; congr 1; omega
      _ ≤ 2 ^ (53 + guess) * den := by gcongr
  have hshort : (if guess < 0 then num * Nat.pow 2 guess.natAbs < den * Nat.pow 2 52
      else num < den * Nat.pow 2 (52 + guess.natAbs)) ↔ (num : ℚ) / den < 2 ^ (52 + guess) := by
    rw [div_lt_iff₀ hden']
    split_ifs with hg
    · have hpow : (2 : ℚ) ^ (52 + guess) = 2 ^ 52 / 2 ^ guess.natAbs := by
        rw [two_zpow_add, show guess = -(guess.natAbs : ℤ) by omega, zpow_neg, zpow_natCast]
        simp only [Int.natAbs_neg, Int.natAbs_natCast]
        rfl
      rw [hpow, div_mul_eq_mul_div, lt_div_iff₀ (by positivity), ← Nat.cast_lt (α := ℚ), Nat.pow_eq, Nat.pow_eq,
        Nat.cast_mul, Nat.cast_mul, Nat.cast_pow, Nat.cast_pow, Nat.cast_ofNat, mul_comm (den : ℚ)]
    · have hpow : (2 : ℚ) ^ (52 + guess) = 2 ^ (52 + guess.natAbs) := by
        rw [← zpow_natCast]
        congr 1
        omega
      rw [hpow, ← Nat.cast_lt (α := ℚ)]
      simp [mul_comm]
  by_cases hs : (num : ℚ) / den < 2 ^ (52 + guess)
  · refine ⟨guess - 1, ?_, ?_, ?_⟩
    · unfold exponentFor
      simp only [← hguess, hshort.mpr hs, if_true]
    · rw [show 52 + (guess - 1) = 51 + guess by ring]
      exact hlow
    · rw [show 53 + (guess - 1) = 52 + guess by ring]
      exact hs
  · refine ⟨guess, ?_, le_of_not_gt hs, hhigh⟩
    unfold exponentFor
    simp only [← hguess, mt hshort.mp hs, if_false]

lemma exponentFor_eq {num den : ℕ} {e : ℤ} (hnum : 0 < num) (hden : 0 < den) (hleast : leastExponent ≤ e)
    (hl : e = leastExponent ∨ (2 : ℚ) ^ (52 + e) ≤ num / den) (hh : (num : ℚ) / den < 2 ^ (53 + e)) :
    exponentFor num den = e := by
  obtain ⟨g, hexp, hg1, hg2⟩ := exponentFor_spec hnum hden
  have hone : (1 : ℚ) < 2 := by norm_num
  have hge : g ≤ e := by
    have := (zpow_lt_zpow_iff_right₀ hone).mp (lt_of_le_of_lt hg1 hh)
    omega
  rw [hexp]
  rcases hl with rfl | hl
  · exact max_eq_left hge
  · have := (zpow_lt_zpow_iff_right₀ hone).mp (lt_of_le_of_lt hl hg2)
    rw [show g = e by omega, max_eq_right hleast]

lemma ofRatio_of_mantissa {num den m : ℕ} {e : ℤ} (negative : Bool) (hnum : 0 < num) (hm : m < 2 ^ 53)
    (he : e ≤ greatestExponent) (hexp : exponentFor num den = e) (hmant : scaledMantissa num den e = m) :
    ofRatio negative num den = .finite negative m e := by
  have hne : ¬m = Nat.pow 2 53 := by
    rw [Nat.pow_eq]
    exact hm.ne
  unfold ofRatio
  simp only [hnum.ne', hexp, hmant, hne, if_false, not_lt.mpr he]

lemma ofRatio_of_carry {num den : ℕ} {e : ℤ} (negative : Bool) (hnum : 0 < num) (he : e ≤ greatestExponent)
    (hexp : exponentFor num den = e - 1) (hmant : scaledMantissa num den (e - 1) = 2 ^ 53) :
    ofRatio negative num den = .finite negative (2 ^ 52) e := by
  unfold ofRatio
  simp only [hnum.ne', hexp, hmant, Nat.pow_eq, if_true, if_false, sub_add_cancel, not_lt.mpr he]

section Interval

variable {num den m : ℕ} {e : ℤ}

lemma Canonical.cast_lt (hc : Canonical m e) : (m : ℚ) + 1 / 2 < 2 ^ 53 := by
  have h : m + 1 ≤ 2 ^ 53 := hc.lt
  have : (m : ℚ) + 1 ≤ 2 ^ 53 := by exact_mod_cast h
  linarith

lemma RoundsTo.lt_pow {q : ℚ} (h : RoundsTo q m e) (hc : Canonical m e) : q < 2 ^ (53 + e) := by
  rw [two_zpow_add]
  refine lt_of_le_of_lt h.high (mul_lt_mul_of_pos_right ?_ (by positivity))
  exact_mod_cast hc.cast_lt

lemma scaledMantissa_of_roundsTo (hden : 0 < den) (h : RoundsTo ((num : ℚ) / den) m e)
    (hl : e = leastExponent ∨ (2 : ℚ) ^ (52 + e) ≤ num / den) : scaledMantissa num den e = m := by
  have hp : (0 : ℚ) < 2 ^ e := by positivity
  by_cases hgap : m = 2 ^ 52 ∧ leastExponent < e
  · have hstrict : ((m : ℚ) - 1 / 2) * 2 ^ e < num / den := by
      refine lt_of_lt_of_le ?_ (hl.resolve_left hgap.2.ne')
      rw [two_zpow_add]
      apply mul_lt_mul_of_pos_right _ hp
      rw [hgap.1]
      norm_num
    exact scaledMantissa_eq hden hstrict.le h.high fun ho => ⟨hstrict, (h.odd ho).2⟩
  · have hhalf : gap m e = 1 / 2 := if_neg hgap
    exact scaledMantissa_eq hden (hhalf ▸ h.low) h.high fun ho => hhalf ▸ h.odd ho

/-- A quotient below the least mantissa that is rounded up to it has the exponent before. -/
lemma scaledMantissa_below (hden : 0 < den) (h : RoundsTo ((num : ℚ) / den) (2 ^ 52) e) (he : leastExponent < e)
    (hh : (num : ℚ) / den < 2 ^ (52 + e)) : scaledMantissa num den (e - 1) = 2 ^ 53 := by
  have hlow : ((2 : ℚ) ^ 53 - 1 / 2) * 2 ^ (e - 1) ≤ num / den := by
    refine le_trans (le_of_eq ?_) h.low
    rw [show gap (2 ^ 52) e = 1 / 4 from if_pos ⟨rfl, he⟩, zpow_sub_one₀ two_ne_zero]
    push_cast
    ring
  refine scaledMantissa_eq hden (by exact_mod_cast hlow) ?_ (by norm_num)
  refine hh.le.trans ?_
  rw [show 52 + e = 53 + (e - 1) by ring, two_zpow_add]
  apply mul_le_mul_of_nonneg_right _ (by positivity)
  norm_num

/-- A quotient inside the rounding interval of a number is rounded to it. -/
theorem ofRatio_eq (negative : Bool) (hc : Canonical m e) (hm : 0 < m) (hden : 0 < den)
    (h : RoundsTo ((num : ℚ) / den) m e) : ofRatio negative num den = .finite negative m e := by
  have hnum : 0 < num := by
    by_contra h0
    have := h.pos hm
    simp [show num = 0 by omega] at this
  by_cases hl : e = leastExponent ∨ (2 : ℚ) ^ (52 + e) ≤ num / den
  · exact ofRatio_of_mantissa negative hnum hc.lt hc.greatest
      (exponentFor_eq hnum hden hc.least hl (h.lt_pow hc)) (scaledMantissa_of_roundsTo hden h hl)
  · obtain ⟨hne, hpow⟩ := not_or.mp hl
    have hlt := lt_of_not_ge hpow
    have he : leastExponent < e := lt_of_le_of_ne hc.least (Ne.symm hne)
    have h52 : m = 2 ^ 52 := by
      by_contra hm52
      have hm' : 2 ^ 52 + 1 ≤ m := by
        have := hc.normal.resolve_right hne
        omega
      have hm'' : ((2 : ℚ) ^ 52 + 1) ≤ m := by exact_mod_cast hm'
      have hlow := h.low
      rw [show gap m e = 1 / 2 from if_neg fun h => hm52 h.1] at hlow
      refine absurd (lt_of_le_of_lt hlow hlt) (not_lt.mpr ?_)
      rw [two_zpow_add]
      apply mul_le_mul_of_nonneg_right _ (by positivity)
      calc (2 : ℚ) ^ (52 : ℤ) = 2 ^ 52 := by norm_cast
        _ ≤ m - 1 / 2 := by linarith
    subst h52
    refine ofRatio_of_carry negative hnum hc.greatest
      (exponentFor_eq hnum hden (by omega) (.inr ?_) ?_) (scaledMantissa_below hden h he hlt)
    · refine le_trans ?_ h.low
      rw [show gap (2 ^ 52) e = 1 / 4 from if_pos ⟨rfl, he⟩, show 52 + (e - 1) = 51 + e by ring, two_zpow_add]
      apply mul_le_mul_of_nonneg_right _ (by positivity)
      norm_num
    · rw [show 53 + (e - 1) = 52 + e by ring]
      exact hlt

end Interval

theorem canonical_of_ofRatio {num den m : ℕ} {e : ℤ} {negative sign : Bool} (hden : 0 < den)
    (h : ofRatio negative num den = .finite sign m e) : Canonical m e := by
  unfold ofRatio at h
  by_cases hnum : num = 0
  · simp only [hnum, if_true, zero, Binary64.finite.injEq] at h
    obtain ⟨-, rfl, rfl⟩ := h
    exact ⟨by norm_num, le_rfl, by decide, .inr rfl⟩
  · obtain ⟨g, hexp, hg1, hg2⟩ := exponentFor_spec (Nat.pos_of_ne_zero hnum) hden
    obtain ⟨n, d, hd, hmant, hnd⟩ := scaledMantissa_eq_quotient num den hden (exponentFor num den)
    have hd' : (0 : ℚ) < d := by exact_mod_cast hd
    have hscale : (num : ℚ) / den = n / d * 2 ^ exponentFor num den := by
      rw [div_mul_eq_mul_div, hnd, mul_div_assoc, div_self hd'.ne', mul_one]
    have hp : (0 : ℚ) < 2 ^ exponentFor num den := by positivity
    have hle : scaledMantissa num den (exponentFor num den) ≤ 2 ^ 53 := by
      rw [hmant]
      apply roundedQuotient_le
      have : (n : ℚ) / d * 2 ^ exponentFor num den < 2 ^ (53 : ℤ) * 2 ^ exponentFor num den := by
        rw [← hscale, ← two_zpow_add]
        refine lt_of_lt_of_le hg2 (zpow_le_zpow_right₀ (by norm_num) ?_)
        omega
      have := (div_lt_iff₀ hd').mp (lt_of_mul_lt_mul_right this hp.le)
      exact_mod_cast this
    have hge : 2 ^ 52 ≤ scaledMantissa num den (exponentFor num den) ∨ exponentFor num den = leastExponent := by
      by_cases hclamp : exponentFor num den = leastExponent
      · exact .inr hclamp
      · left
        rw [hmant]
        apply le_roundedQuotient hd
        have heq : g = exponentFor num den := by omega
        have : (2 : ℚ) ^ (52 : ℤ) * 2 ^ exponentFor num den ≤ n / d * 2 ^ exponentFor num den := by
          rw [← hscale, ← two_zpow_add, ← heq]
          exact hg1
        have := (le_div_iff₀ hd').mp (le_of_mul_le_mul_right this hp)
        exact_mod_cast this
    have hleast : leastExponent ≤ exponentFor num den := by omega
    simp only [hnum, if_false, Nat.pow_eq] at h
    split_ifs at h with h53 hinf hinf
    · simp only [Binary64.finite.injEq] at h
      obtain ⟨-, rfl, rfl⟩ := h
      exact ⟨by norm_num, by omega, le_of_not_gt hinf, .inl le_rfl⟩
    · simp only [Binary64.finite.injEq] at h
      obtain ⟨-, rfl, rfl⟩ := h
      exact ⟨lt_of_le_of_ne hle h53, hleast, le_of_not_gt hinf, hge⟩

end Binary64

end PackageExports
