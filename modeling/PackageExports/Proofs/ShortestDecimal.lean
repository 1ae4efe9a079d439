import PackageExports.Decimal.Shortest
import PackageExports.Proofs.Digits
import PackageExports.Proofs.Rounding

/-!
# Shortest decimals read back

The digits that `Binary64.shortest` finds lie in the rounding interval of the number. Seventeen digits always suffice,
because the interval is then wider than the distance between two decimals, so there is always an answer.
-/

namespace PackageExports.Binary64

variable {m : ℕ} {e : ℤ}

lemma ten_zpow_add (a b : ℤ) : (10 : ℚ) ^ (a + b) = 10 ^ a * 10 ^ b :=
  zpow_add₀ (by norm_num) a b

lemma ten_zpow_natAbs {k : ℤ} (h : ¬k < 0) : (10 : ℚ) ^ k = 10 ^ k.natAbs := by
  rw [← zpow_natCast, show ((k.natAbs : ℤ)) = k by omega]

lemma ten_zpow_neg_natAbs {k : ℤ} (h : k < 0) : (10 : ℚ) ^ k = (10 ^ k.natAbs)⁻¹ := by
  rw [← zpow_natCast, ← zpow_neg, show (-(k.natAbs : ℤ)) = k by omega]

lemma two_pow_le_ten_pow : 2 ^ 1075 ≤ 10 ^ 331 ∧ 2 ^ 1024 ≤ 10 ^ 310 := by
  decide +kernel

lemma RoundsTo.least_le {q : ℚ} (h : RoundsTo q m e) (hc : Canonical m e) (hm : 0 < m) :
    (2 : ℚ) ^ (-1075 : ℤ) ≤ q := by
  have hm' : (1 : ℚ) ≤ m := by exact_mod_cast hm
  have hgap := gap_le m e
  calc (2 : ℚ) ^ (-1075 : ℤ) = 1 / 2 * 2 ^ (-1074 : ℤ) := by
        rw [show (-1075 : ℤ) = -1 + -1074 by norm_num, two_zpow_add, zpow_neg_one, one_div]
    _ ≤ (m - gap m e) * 2 ^ e := by
      apply mul_le_mul (by linarith) (zpow_le_zpow_right₀ (by norm_num) hc.least) (by positivity) (by linarith)
    _ ≤ q := h.low

lemma RoundsTo.lt_greatest {q : ℚ} (h : RoundsTo q m e) (hc : Canonical m e) : q < (2 : ℚ) ^ (1024 : ℤ) := by
  refine lt_of_lt_of_le (h.lt_pow hc) (zpow_le_zpow_right₀ (by norm_num) ?_)
  have : e ≤ 971 := hc.greatest
  omega

theorem ofDecimal_eq {digits : ℕ} {scale : ℤ} (negative : Bool) (hc : Canonical m e) (hm : 0 < m)
    (h : RoundsTo (digits * 10 ^ scale) m e) : ofDecimal negative digits scale = .finite negative m e := by
  have hp : (0 : ℚ) < 10 ^ scale := by positivity
  have hdigits : 0 < digits := by
    by_contra h0
    have := h.pos hm
    simp [show digits = 0 by omega] at this
  have hlower : ¬(decimalLength digits : ℤ) + scale < -330 := by
    intro hmag
    have hlt : (digits : ℚ) < 10 ^ (decimalLength digits : ℤ) := by
      rw [zpow_natCast]
      exact_mod_cast Text.lt_pow_decimalLength digits
    have hq : (digits : ℚ) * 10 ^ scale < 10 ^ (-331 : ℤ) := by
      calc (digits : ℚ) * 10 ^ scale < 10 ^ (decimalLength digits : ℤ) * 10 ^ scale :=
            mul_lt_mul_of_pos_right hlt hp
        _ = 10 ^ ((decimalLength digits : ℤ) + scale) := (ten_zpow_add _ _).symm
        _ ≤ 10 ^ (-331 : ℤ) := zpow_le_zpow_right₀ (by norm_num) (by omega)
    have hsmall : (10 : ℚ) ^ (-331 : ℤ) ≤ 2 ^ (-1075 : ℤ) := by
      rw [zpow_neg, zpow_neg]
      apply inv_anti₀ (by positivity)
      exact_mod_cast two_pow_le_ten_pow.1
    exact absurd (h.least_le hc hm) (not_le.mpr (hq.trans_le hsmall))
  have hupper : ¬310 < (decimalLength digits : ℤ) + scale := by
    intro hmag
    have hle : (10 : ℚ) ^ ((decimalLength digits - 1 : ℕ) : ℤ) ≤ digits := by
      rw [zpow_natCast]
      exact_mod_cast Text.pow_decimalLength_le hdigits
    have hpos := Text.decimalLength_pos digits
    have hq : (10 : ℚ) ^ (310 : ℤ) ≤ digits * 10 ^ scale := by
      calc (10 : ℚ) ^ (310 : ℤ) ≤ 10 ^ (((decimalLength digits - 1 : ℕ) : ℤ) + scale) :=
            zpow_le_zpow_right₀ (by norm_num) (by omega)
        _ = 10 ^ ((decimalLength digits - 1 : ℕ) : ℤ) * 10 ^ scale := ten_zpow_add _ _
        _ ≤ digits * 10 ^ scale := mul_le_mul_of_nonneg_right hle hp.le
    have hlarge : (2 : ℚ) ^ (1024 : ℤ) ≤ 10 ^ (310 : ℤ) := by exact_mod_cast two_pow_le_ten_pow.2
    exact absurd (h.lt_greatest hc) (not_lt.mpr (hlarge.trans hq))
  have hzero : ¬(digits = 0 ∨ (decimalLength digits : ℤ) + scale < -330) := by
    rintro (h0 | h0)
    · omega
    · exact hlower h0
  unfold ofDecimal
  simp only [hzero, hupper, if_false, Nat.pow_eq]
  by_cases hs : scale < 0
  · rw [if_pos hs]
    refine ofRatio_eq negative hc hm (by positivity) ?_
    rw [ten_zpow_neg_natAbs hs, ← div_eq_mul_inv] at h
    exact_mod_cast h
  · rw [if_neg hs]
    refine ofRatio_eq negative hc hm one_pos ?_
    rw [ten_zpow_natAbs hs] at h
    rw [Nat.cast_one, div_one]
    exact_mod_cast h

/-! ### The interval of a number -/

lemma interval_unit_pos (m : ℕ) (e : ℤ) : 0 < (interval m e).unit := by
  unfold interval
  dsimp only
  split_ifs <;> simp [Nat.pow_eq]

lemma interval_bounds (hm : 0 < m) :
    ((interval m e).low : ℚ) = (m - gap m e) * 2 ^ e * (interval m e).unit ∧
      ((interval m e).value : ℚ) = m * 2 ^ e * (interval m e).unit ∧
      ((interval m e).high : ℚ) = (m + 1 / 2) * 2 ^ e * (interval m e).unit := by
  obtain ⟨scale, unit, hpair, hscale⟩ : ∃ scale unit : ℕ,
      (if e < 2 then (1, Nat.pow 2 (e - 2).natAbs) else (Nat.pow 2 (e - 2).natAbs, 1)) = (scale, unit) ∧
        4 * (scale : ℚ) = 2 ^ e * unit := by
    by_cases he : e < 2
    · refine ⟨1, 2 ^ (e - 2).natAbs, by rw [if_pos he, Nat.pow_eq], ?_⟩
      rw [Nat.cast_pow, Nat.cast_two, ← zpow_natCast, ← two_zpow_add, show e + ((e - 2).natAbs : ℤ) = 2 by omega]
      norm_num
    · refine ⟨2 ^ (e - 2).natAbs, 1, by rw [if_neg he, Nat.pow_eq], ?_⟩
      rw [Nat.cast_pow, Nat.cast_two, ← zpow_natCast, Nat.cast_one, mul_one,
        show ((e - 2).natAbs : ℤ) = e + -2 by omega, two_zpow_add]
      norm_num
      ring
  have hbelow : ((4 * m - if m = Nat.pow 2 52 ∧ leastExponent < e then 1 else 2 : ℕ) : ℚ) = 4 * (m - gap m e) := by
    rw [Nat.cast_sub (by split_ifs <;> omega), Nat.pow_eq, gap]
    split_ifs <;> push_cast <;> ring
  unfold interval
  simp only [hpair, Nat.cast_mul, hbelow]
  refine ⟨?_, ?_, ?_⟩
  · rw [mul_assoc _ _ (unit : ℚ), ← hscale]
    ring
  · rw [mul_assoc _ _ (unit : ℚ), ← hscale]
    push_cast
    ring
  · rw [mul_assoc _ _ (unit : ℚ), ← hscale]
    push_cast
    ring

/-- A rational lies between the bounds, which count if the interval is closed. -/
def Interval.Contains (i : Interval) (q : ℚ) : Prop :=
  if i.closed then (i.low : ℚ) ≤ q * i.unit ∧ q * i.unit ≤ i.high
  else (i.low : ℚ) < q * i.unit ∧ q * i.unit < i.high

lemma Interval.Contains.bounds {i : Interval} {q : ℚ} (h : i.Contains q) :
    (i.low : ℚ) ≤ q * i.unit ∧ q * i.unit ≤ i.high := by
  unfold Contains at h
  split_ifs at h
  · exact h
  · exact ⟨h.1.le, h.2.le⟩

lemma roundsTo_of_contains {q : ℚ} (hm : 0 < m) (h : (interval m e).Contains q) : RoundsTo q m e := by
  have hunit : (0 : ℚ) < (interval m e).unit := by exact_mod_cast interval_unit_pos m e
  obtain ⟨hlow, -, hhigh⟩ := interval_bounds (e := e) hm
  refine ⟨?_, ?_, ?_⟩
  · have := h.bounds.1
    rw [hlow] at this
    exact le_of_mul_le_mul_right this hunit
  · have := h.bounds.2
    rw [hhigh] at this
    exact le_of_mul_le_mul_right this hunit
  · intro hodd
    have hopen : (interval m e).closed = false := by
      unfold interval
      simp [hodd]
    rw [Interval.Contains, hopen, if_neg Bool.false_ne_true, hlow, hhigh] at h
    exact ⟨lt_of_mul_lt_mul_right h.1 hunit.le, lt_of_mul_lt_mul_right h.2 hunit.le⟩

/-- The interval reaches from below the value to above it, and is wider than the last place of 17 digits. -/
lemma interval_wide (hc : Canonical m e) (hm : 0 < m) :
    ((interval m e).low : ℚ) < (interval m e).value ∧ ((interval m e).value : ℚ) < (interval m e).high ∧
      ((interval m e).value : ℚ) < ((interval m e).high - (interval m e).low) * 10 ^ 16 := by
  have hunit : (0 : ℚ) < (interval m e).unit := by exact_mod_cast interval_unit_pos m e
  have hp : (0 : ℚ) < 2 ^ e * (interval m e).unit := by positivity
  obtain ⟨hlow, hvalue, hhigh⟩ := interval_bounds (e := e) hm
  rw [hlow, hvalue, hhigh]
  refine ⟨?_, ?_, ?_⟩
  · have := gap_pos m e
    rw [mul_assoc, mul_assoc]
    exact mul_lt_mul_of_pos_right (by linarith) hp
  · rw [mul_assoc, mul_assoc]
    exact mul_lt_mul_of_pos_right (by linarith) hp
  · have hwidth : (m : ℚ) < (1 / 2 + gap m e) * 10 ^ 16 := by
      have hlt := hc.cast_lt
      by_cases h : m = 2 ^ 52 ∧ leastExponent < e
      · rw [gap, if_pos h, h.1]
        norm_num
      · rw [gap, if_neg h, show (1 / 2 + 1 / 2 : ℚ) * 10 ^ 16 = 10 ^ 16 by norm_num]
        calc (m : ℚ) ≤ m + 1 / 2 := by linarith
          _ < 2 ^ 53 := hlt
          _ ≤ 10 ^ 16 := by norm_num
    calc (m : ℚ) * 2 ^ e * (interval m e).unit = m * (2 ^ e * (interval m e).unit) := by ring
      _ < (1 / 2 + gap m e) * 10 ^ 16 * (2 ^ e * (interval m e).unit) := mul_lt_mul_of_pos_right hwidth hp
      _ = _ := by ring

/-! ### Decimals inside the interval -/

/-- A power of ten as a fraction of whole numbers, of which one is 1. -/
lemma exists_scale (place : ℤ) :
    ∃ up down : ℕ, (if place < 0 then (1, Nat.pow 10 place.natAbs) else (Nat.pow 10 place.natAbs, 1)) = (up, down) ∧
      0 < up ∧ 0 < down ∧ (10 : ℚ) ^ place = up / down := by
  by_cases hplace : place < 0
  · refine ⟨1, 10 ^ place.natAbs, by rw [if_pos hplace, Nat.pow_eq], one_pos, by positivity, ?_⟩
    rw [ten_zpow_neg_natAbs hplace]
    simp
  · refine ⟨10 ^ place.natAbs, 1, by rw [if_neg hplace, Nat.pow_eq], by positivity, one_pos, ?_⟩
    rw [ten_zpow_natAbs hplace]
    simp

section Scaled

variable {i : Interval} {up down : ℕ} {place : ℤ} (hscale : (10 : ℚ) ^ place = up / down)

include hscale

lemma scaled_mul_unit (d : ℚ) : d * 10 ^ place * i.unit = d * (i.unit * up) / down := by
  rw [hscale]
  field_simp

/-- Whether a decimal lies in an interval, in terms of whole numbers. -/
lemma Interval.contains_scaled_iff (hdown : 0 < down) (d : ℕ) :
    (if i.closed = true then decide (i.low * down ≤ d * (i.unit * up)) && decide (d * (i.unit * up) ≤ i.high * down)
      else decide (i.low * down < d * (i.unit * up)) && decide (d * (i.unit * up) < i.high * down)) = true ↔
      i.Contains (d * 10 ^ place) := by
  have hdown' : (0 : ℚ) < down := by exact_mod_cast hdown
  unfold Interval.Contains
  rw [scaled_mul_unit hscale]
  by_cases hclosed : i.closed = true
  · rw [if_pos hclosed, if_pos hclosed, Bool.and_eq_true, decide_eq_true_eq, decide_eq_true_eq,
      le_div_iff₀ hdown', div_le_iff₀ hdown']
    norm_cast
  · rw [if_neg hclosed, if_neg hclosed, Bool.and_eq_true, decide_eq_true_eq, decide_eq_true_eq,
      lt_div_iff₀ hdown', div_lt_iff₀ hdown']
    norm_cast

end Scaled

lemma decimalWithin?_cases (i : Interval) (hunit : 0 < i.unit) (point : ℤ) (count : ℕ) :
    ∃ floor : ℕ, (floor : ℚ) * 10 ^ (point - count) * i.unit ≤ i.value ∧
      (i.value : ℚ) < (floor + 1) * 10 ^ (point - count) * i.unit ∧
      match decimalWithin? i point count with
      | some (digits, scale) => scale = point - count ∧ i.Contains (digits * 10 ^ scale)
      | none => ¬i.Contains (floor * 10 ^ (point - count)) ∧ ¬i.Contains ((floor + 1) * 10 ^ (point - count)) := by
  obtain ⟨up, down, hpair, hup, hdown, hscale⟩ := exists_scale (point - count)
  have hdown' : (0 : ℚ) < down := by exact_mod_cast hdown
  have hgrid : 0 < i.unit * up := Nat.mul_pos hunit hup
  refine ⟨i.value * down / (i.unit * up), ?_, ?_, ?_⟩
  · rw [scaled_mul_unit hscale, div_le_iff₀ hdown']
    exact_mod_cast Nat.div_mul_le_self (i.value * down) (i.unit * up)
  · rw [scaled_mul_unit hscale, lt_div_iff₀ hdown']
    exact_mod_cast Nat.lt_mul_of_div_lt (Nat.lt_succ_self _) hgrid
  · unfold decimalWithin?
    simp only [hpair]
    generalize i.value * down / (i.unit * up) = floor
    have h1 := Interval.contains_scaled_iff (i := i) hscale hdown floor
    have h2 := Interval.contains_scaled_iff (i := i) hscale hdown (floor + 1)
    push_cast at h2
    generalize (if i.closed = true then decide (i.low * down ≤ floor * (i.unit * up)) &&
      decide (floor * (i.unit * up) ≤ i.high * down) else decide (i.low * down < floor * (i.unit * up)) &&
      decide (floor * (i.unit * up) < i.high * down)) = first at h1 ⊢
    generalize (if i.closed = true then decide (i.low * down ≤ (floor + 1) * (i.unit * up)) &&
      decide ((floor + 1) * (i.unit * up) ≤ i.high * down) else decide (i.low * down < (floor + 1) * (i.unit * up)) &&
      decide ((floor + 1) * (i.unit * up) < i.high * down)) = second at h2 ⊢
    cases first <;> cases second
    · exact ⟨fun h => Bool.false_ne_true (h1.mpr h), fun h => Bool.false_ne_true (h2.mpr h)⟩
    · exact ⟨rfl, by exact_mod_cast h2.mp rfl⟩
    · exact ⟨rfl, h1.mp rfl⟩
    · dsimp only
      split_ifs
      · exact ⟨rfl, h1.mp rfl⟩
      · exact ⟨rfl, by exact_mod_cast h2.mp rfl⟩

lemma decimalLength_bounds {n : ℕ} (hn : 0 < n) :
    (10 : ℚ) ^ ((decimalLength n : ℤ) - 1) ≤ n ∧ (n : ℚ) < 10 ^ (decimalLength n : ℤ) := by
  have hlength : (decimalLength n : ℤ) - 1 = ((decimalLength n - 1 : ℕ) : ℤ) := by
    have hpos := Text.decimalLength_pos n
    omega
  rw [hlength, zpow_natCast, zpow_natCast]
  exact ⟨by exact_mod_cast Text.pow_decimalLength_le hn, by exact_mod_cast Text.lt_pow_decimalLength n⟩

/-- How `pointPosition` compares a quotient with a power of ten. -/
lemma quotient_lt_pow_iff (num : ℕ) {den : ℕ} (hden : 0 < den) (guess : ℤ) :
    (if guess < 0 then num * Nat.pow 10 guess.natAbs < den else num < den * Nat.pow 10 guess.natAbs) ↔
      (num : ℚ) / den < 10 ^ guess := by
  have hden' : (0 : ℚ) < den := by exact_mod_cast hden
  rw [div_lt_iff₀ hden', Nat.pow_eq]
  split_ifs with hg
  · rw [ten_zpow_neg_natAbs hg, inv_mul_eq_div, lt_div_iff₀ (by positivity)]
    norm_cast
  · rw [ten_zpow_natAbs hg, mul_comm]
    norm_cast

lemma pointPosition_spec {num den : ℕ} (hnum : 0 < num) (hden : 0 < den) :
    (10 : ℚ) ^ (pointPosition num den - 1) ≤ num / den ∧ (num : ℚ) / den < 10 ^ pointPosition num den := by
  have hden' : (0 : ℚ) < den := by exact_mod_cast hden
  obtain ⟨hn1, hn2⟩ := decimalLength_bounds hnum
  obtain ⟨hd1, hd2⟩ := decimalLength_bounds hden
  set guess : ℤ := (decimalLength num : ℤ) - decimalLength den with hguess
  have hlow : (10 : ℚ) ^ (guess - 1) ≤ num / den := by
    rw [le_div_iff₀ hden']
    calc (10 : ℚ) ^ (guess - 1) * den ≤ 10 ^ (guess - 1) * 10 ^ (decimalLength den : ℤ) := by gcongr
      _ = 10 ^ ((decimalLength num : ℤ) - 1) := by rw [← ten_zpow_add]; congr 1; omega
      _ ≤ num := hn1
  have hhigh : (num : ℚ) / den < 10 ^ (guess + 1) := by
    rw [div_lt_iff₀ hden']
    calc (num : ℚ) < 10 ^ (decimalLength num : ℤ) := hn2
      _ = 10 ^ (guess + 1) * 10 ^ ((decimalLength den : ℤ) - 1) := by rw [← ten_zpow_add]; congr 1; omega
      _ ≤ 10 ^ (guess + 1) * den := by gcongr
  have hbelow := quotient_lt_pow_iff num hden guess
  by_cases hs : (num : ℚ) / den < 10 ^ guess
  · have hpoint : pointPosition num den = guess := by
      unfold pointPosition
      simp only [← hguess, hbelow.mpr hs, if_true]
    rw [hpoint]
    exact ⟨hlow, hs⟩
  · have hpoint : pointPosition num den = guess + 1 := by
      unfold pointPosition
      simp only [← hguess, mt hbelow.mp hs, if_false]
    rw [hpoint, add_sub_cancel_right]
    exact ⟨le_of_not_gt hs, hhigh⟩

lemma interval_value_pos (hm : 0 < m) : 0 < (interval m e).value := by
  have hunit : (0 : ℚ) < (interval m e).unit := by exact_mod_cast interval_unit_pos m e
  have hm' : (0 : ℚ) < m := by exact_mod_cast hm
  have hpos : (0 : ℚ) < (interval m e).value := by
    rw [(interval_bounds hm).2.1]
    positivity
  exact_mod_cast hpos

/-- Seventeen digits suffice: otherwise the interval would lie between two neighbouring decimals. -/
lemma decimalWithin?_seventeen (hc : Canonical m e) (hm : 0 < m) :
    decimalWithin? (interval m e) (pointPosition (interval m e).value (interval m e).unit) 17 ≠ none := by
  intro hnone
  have hunit := interval_unit_pos m e
  have hunit' : (0 : ℚ) < (interval m e).unit := by exact_mod_cast hunit
  have hpoint := (pointPosition_spec (interval_value_pos (e := e) hm) hunit).1
  obtain ⟨hlow, hhigh, hwide⟩ := interval_wide hc hm
  generalize interval m e = i at *
  generalize pointPosition i.value i.unit = point at *
  obtain ⟨floor, hfloor, hnext, hcases⟩ := decimalWithin?_cases i hunit point 17
  rw [hnone] at hcases
  obtain ⟨h1, h2⟩ := hcases
  have hbelow : (floor : ℚ) * 10 ^ (point - (17 : ℕ)) * i.unit ≤ i.low := by
    by_contra h
    rw [not_le] at h
    apply h1
    unfold Interval.Contains
    split_ifs
    · exact ⟨h.le, (hfloor.trans_lt hhigh).le⟩
    · exact ⟨h, hfloor.trans_lt hhigh⟩
  have habove : (i.high : ℚ) ≤ (floor + 1) * 10 ^ (point - (17 : ℕ)) * i.unit := by
    by_contra h
    rw [not_le] at h
    apply h2
    unfold Interval.Contains
    split_ifs
    · exact ⟨(hlow.trans hnext).le, h.le⟩
    · exact ⟨hlow.trans hnext, h⟩
  have hplace : (10 : ℚ) ^ (point - (17 : ℕ)) * 10 ^ 16 = 10 ^ (point - 1) := by
    rw [show point - 1 = (point - (17 : ℕ)) + 16 by push_cast; ring, ten_zpow_add]
    norm_num
  have hvalue : (10 : ℚ) ^ (point - 1) * i.unit ≤ i.value := (le_div_iff₀ hunit').mp hpoint
  have hgap : ((i.high : ℚ) - i.low) * 10 ^ 16 ≤ 10 ^ (point - 1) * i.unit := by
    rw [← hplace]
    linarith
  linarith

/-- The digits of a number without the zeros at the end, and how many those were. -/
lemma exists_cut {digits : ℕ} (hpos : digits ≠ 0) :
    ∃ kept k, Text.trimEnd (CodePoint.ofChar '0') (Text.ofNat digits) = kept ∧ Text.AllDigits kept ∧ kept ≠ [] ∧
      kept.head? ≠ some (CodePoint.ofChar '0') ∧ digits = Text.natOfDigits kept * 10 ^ k ∧
      (Text.ofNat digits).length = kept.length + k := by
  obtain ⟨k, hk⟩ := Text.exists_trimEnd (CodePoint.ofChar '0') (Text.ofNat digits)
  generalize Text.trimEnd (CodePoint.ofChar '0') (Text.ofNat digits) = kept at hk
  have hvalue : digits = Text.natOfDigits kept * 10 ^ k := by
    have hread := congrArg Text.natOfDigits hk
    rwa [Text.natOfDigits_ofNat, Text.natOfDigits_append, Text.natOfDigits_zeros, List.length_replicate] at hread
  have hne : kept ≠ [] := by
    rintro rfl
    simp [Text.natOfDigits] at hvalue
    exact hpos hvalue
  refine ⟨kept, k, rfl, ?_, hne, ?_, hvalue, by rw [hk, List.length_append, List.length_replicate]⟩
  · refine (Text.allDigits_ofNat digits).sublist ?_
    rw [hk]
    exact List.sublist_append_left _ _
  · have hhead := Text.head?_ofNat hpos
    obtain ⟨c, rest, rfl⟩ := List.exists_cons_of_ne_nil hne
    rw [hk] at hhead
    exact hhead

/-- The digits found, cut after the last that is no zero, stand for a decimal that rounds to the number. -/
theorem shortest_spec (hc : Canonical m e) (hm : 0 < m) :
    Text.AllDigits (shortest m e).1 ∧ (shortest m e).1 ≠ [] ∧
      (shortest m e).1.head? ≠ some (CodePoint.ofChar '0') ∧
      RoundsTo (Text.natOfDigits (shortest m e).1 * 10 ^ ((shortest m e).2 - ((shortest m e).1.length : ℤ))) m e := by
  unfold shortest
  dsimp only
  split
  · rename_i digits scale hfound
    obtain ⟨n, -, hn⟩ := List.exists_of_findSome?_eq_some hfound
    obtain ⟨floor, -, -, hcases⟩ := decimalWithin?_cases (interval m e) (interval_unit_pos m e)
      (pointPosition (interval m e).value (interval m e).unit) (n + 1)
    rw [hn] at hcases
    have hround := roundsTo_of_contains hm hcases.2
    have hpos : digits ≠ 0 := by
      rintro rfl
      have := hround.pos hm
      simp at this
    obtain ⟨kept, k, hkept, hdigits, hne, hhead, hvalue, hlength⟩ := exists_cut hpos
    rw [hkept]
    refine ⟨hdigits, hne, hhead, ?_⟩
    have hexp : scale + ((Text.ofNat digits).length : ℤ) - (kept.length : ℤ) = k + scale := by
      rw [hlength]
      push_cast
      ring
    rw [hexp, ten_zpow_add, zpow_natCast, ← mul_assoc]
    rw [hvalue] at hround
    exact_mod_cast hround
  · rename_i hnone
    rw [List.findSome?_eq_none_iff] at hnone
    exact absurd (hnone 16 (by simp)) (decimalWithin?_seventeen hc hm)

end PackageExports.Binary64
