import PackageExports.Json.Printer
import PackageExports.Json.Token
import PackageExports.Proofs.ShortestDecimal

/-!
# Numbers and bare words of JSON

Every number is read back from its written form. A written number holds word characters only, so the automaton of the
reader sees one token.
-/

namespace PackageExports

/-- A number in the form in which it is kept: finite ones are canonical. -/
def Binary64.Kept : Binary64 → Prop
  | .finite _ m e => Binary64.Canonical m e
  | _ => True

namespace Binary64

lemma kept_zero (negative : Bool) : (zero negative).Kept :=
  ⟨by norm_num, le_rfl, by decide, .inr rfl⟩

lemma kept_ofRatio (negative : Bool) (num : ℕ) {den : ℕ} (hden : 0 < den) : (ofRatio negative num den).Kept := by
  cases h : ofRatio negative num den with
  | nan => trivial
  | infinite s => trivial
  | finite s m e => exact canonical_of_ofRatio hden h

lemma kept_ofDecimal (negative : Bool) (digits : ℕ) (exponent : ℤ) : (ofDecimal negative digits exponent).Kept := by
  unfold ofDecimal
  dsimp only
  split_ifs
  · exact kept_zero negative
  · trivial
  · exact kept_ofRatio negative digits (Nat.pos_of_ne_zero (pow_ne_zero _ (by norm_num)))
  · exact kept_ofRatio negative _ one_pos

end Binary64

namespace Json.Token

def pointed : Option Text → Text
  | some fraction => CodePoint.ofChar '.' :: fraction
  | none => []

def powered : Option Text → Text
  | some power => CodePoint.ofChar 'e' :: power
  | none => []

/-- The parts of an unsigned decimal as the reader takes them: digits without a superfluous zero, digits after a point
if there is one, and an integer after the mark of a power if there is one. -/
structure DecimalParts (whole : Text) (fraction power : Option Text) (shift : ℤ) : Prop where
  whole_digits : Text.AllDigits whole
  whole_ne : whole ≠ []
  no_zero : whole.head? = some (CodePoint.ofChar '0') → whole.length = 1
  fraction_digits : ∀ f, fraction = some f → Text.AllDigits f ∧ f ≠ []
  power_read : ∀ p, power = some p → Text.integer? p = some shift
  no_power : power = none → shift = 0

variable {whole : Text} {fraction power : Option Text} {shift : ℤ}

lemma not_digit_pointed (c : CodePoint) (h : (pointed fraction ++ powered power).head? = some c) :
    c.isDigit = false := by
  rcases fraction with _ | f
  · rcases power with _ | p
    · exact absurd h (by simp [pointed, powered])
    · obtain rfl := Option.some.inj h
      decide
  · obtain rfl := Option.some.inj h
    decide

lemma not_digit_powered (c : CodePoint) (h : (powered power).head? = some c) : c.isDigit = false :=
  @not_digit_pointed none power c h

lemma DecimalParts.takeWhile (h : DecimalParts whole fraction power shift) :
    (whole ++ (pointed fraction ++ powered power)).takeWhile CodePoint.isDigit = whole :=
  Text.takeWhile_digits h.whole_digits not_digit_pointed

lemma DecimalParts.whole_accepted (h : DecimalParts whole fraction power shift) :
    (whole.isEmpty || decide (whole.head? = some (CodePoint.ofChar '0') ∧ 1 < whole.length)) = false := by
  have hempty : whole.isEmpty = false := List.isEmpty_eq_false_iff.mpr h.whole_ne
  have hzero : ¬(whole.head? = some (CodePoint.ofChar '0') ∧ 1 < whole.length) := by
    rintro ⟨hhead, hlong⟩
    have := h.no_zero hhead
    omega
  rw [hempty, Bool.false_or]
  exact decide_eq_false hzero

lemma decimal?_integer (negative : Bool) (h : DecimalParts whole none none 0) :
    decimal? negative whole =
      some (.integer (if negative then -(Text.natOfDigits whole : ℤ) else Text.natOfDigits whole)) := by
  have htake := h.takeWhile
  simp only [pointed, powered, List.append_nil] at htake
  have hok := h.whole_accepted
  unfold decimal?
  simp only [htake, List.drop_length]
  simp only [Bool.or_eq_false_iff, decide_eq_false_iff_not] at hok
  simp [hok.1, hok.2]

lemma decimal?_real (negative : Bool) (h : DecimalParts whole fraction power shift)
    (hreal : fraction.isSome ∨ power.isSome) :
    decimal? negative (whole ++ (pointed fraction ++ powered power)) =
      some (.real (.ofDecimal negative (Text.natOfDigits (whole ++ fraction.getD []))
        (shift - (fraction.getD []).length))) := by
  have htake := h.takeWhile
  have hok := h.whole_accepted
  simp only [Bool.or_eq_false_iff, decide_eq_false_iff_not] at hok
  unfold decimal?
  simp only [htake, List.drop_left]
  rcases fraction with _ | f
  · rcases power with _ | p
    · simp at hreal
    · have hpower := h.power_read p rfl
      simp [pointed, powered, hok.1, hok.2, hpower, show ¬CodePoint.ofChar 'e' = CodePoint.ofChar '.' by decide]
  · obtain ⟨hdigits, hne⟩ := h.fraction_digits f rfl
    have hend : ∀ c, (powered power).head? = some c → c.isDigit = false := not_digit_powered
    have hf := Text.takeWhile_digits hdigits hend
    have hd := Text.dropWhile_digits hdigits hend
    rcases power with _ | p
    · have hshift := h.no_power rfl
      simp only [powered, List.append_nil] at hf hd
      simp [pointed, powered, hok.1, hok.2, hf, hd, hne, hshift]
    · have hpower := h.power_read p rfl
      simp only [powered] at hf hd
      simp [pointed, powered, hok.1, hok.2, hf, hd, hne, hpower]

lemma wordValue?_digit {c : CodePoint} {rest : Text} (hc : c.isDigit = true) :
    wordValue? (c :: rest) = decimal? false (c :: rest) := by
  have hword {word : Text} {w : CodePoint} (hw : word.head? = some w) (hn : w.isDigit = false) : c :: rest ≠ word := by
    rintro rfl
    obtain rfl := Option.some.inj hw
    rw [hc] at hn
    exact Bool.noConfusion hn
  have hminus : c ≠ CodePoint.ofChar '-' := by
    rintro rfl
    exact absurd hc (by decide)
  unfold wordValue?
  rw [if_neg (hword rfl (by decide)), if_neg (hword rfl (by decide)), if_neg (hword rfl (by decide)),
    if_neg (hword rfl (by decide)), if_neg (hword rfl (by decide)), if_neg (hword rfl (by decide))]
  exact if_neg hminus

lemma wordValue?_minus {c : CodePoint} {rest : Text} (hc : c.isDigit = true) :
    wordValue? (CodePoint.ofChar '-' :: c :: rest) = decimal? true (c :: rest) := by
  have hword {word : Text} (hw : word.head? ≠ some (CodePoint.ofChar '-')) :
      CodePoint.ofChar '-' :: c :: rest ≠ word := by
    rintro rfl
    exact hw rfl
  have hinfinity : CodePoint.ofChar '-' :: c :: rest ≠ Text.ofString "-Infinity" := by
    intro h
    have hsecond := congrArg (fun t => t.tail.head?) h
    obtain rfl := Option.some.inj hsecond
    exact absurd hc (by decide)
  unfold wordValue?
  rw [if_neg (hword (by decide)), if_neg (hword (by decide)), if_neg (hword (by decide)),
    if_neg (hword (by decide)), if_neg (hword (by decide)), if_neg hinfinity]
  rfl

/-- A text is a word: the automaton takes it in one piece. -/
structure IsWord (t : Text) : Prop where
  ne_nil : t ≠ []
  parts : ∀ c ∈ t, isWordPart c = true

lemma isWordPart_digit {c : CodePoint} (h : c.isDigit = true) : isWordPart c = true := by
  simp [isWordPart, h]

lemma isWordPart_integer {t : Text} {n : ℤ} (h : Text.integer? t = some n) : ∀ c ∈ t, isWordPart c = true := by
  unfold Text.integer? at h
  rcases hsplit : t.splitSign with ⟨negative, digits⟩
  simp only [hsplit] at h
  by_cases hbad : (digits.isEmpty || !digits.all CodePoint.isDigit) = true
  · rw [if_pos hbad] at h
    cases h
  simp only [Bool.or_eq_true, Bool.not_eq_true', not_or, Bool.not_eq_false, List.all_eq_true] at hbad
  have hdigits : ∀ c ∈ digits, isWordPart c = true := fun c hc => isWordPart_digit (hbad.2 c hc)
  unfold Text.splitSign at hsplit
  split at hsplit
  · rename_i c rest
    split_ifs at hsplit with hminus hplus
    · obtain ⟨-, rfl⟩ := Prod.mk.inj hsplit
      rw [hminus]
      exact List.forall_mem_cons.mpr ⟨by decide, hdigits⟩
    · obtain ⟨-, rfl⟩ := Prod.mk.inj hsplit
      rw [hplus]
      exact List.forall_mem_cons.mpr ⟨by decide, hdigits⟩
    · obtain ⟨-, rfl⟩ := Prod.mk.inj hsplit
      exact hdigits
  · simp

lemma DecimalParts.isWord (h : DecimalParts whole fraction power shift) :
    IsWord (whole ++ (pointed fraction ++ powered power)) := by
  refine ⟨by simp [h.whole_ne], ?_⟩
  intro c hc
  simp only [List.mem_append] at hc
  rcases hc with hc | hc | hc
  · exact isWordPart_digit (h.whole_digits c hc)
  · rcases hf : fraction with _ | f
    · simp [hf, pointed] at hc
    · rw [hf, pointed, List.mem_cons] at hc
      rcases hc with rfl | hc
      · decide
      · exact isWordPart_digit ((h.fraction_digits f hf).1 c hc)
  · rcases hp : power with _ | p
    · simp [hp, powered] at hc
    · rw [hp, powered, List.mem_cons] at hc
      rcases hc with rfl | hc
      · decide
      · exact isWordPart_integer (h.power_read p hp) c hc

lemma IsWord.minus {t : Text} (h : IsWord t) : IsWord (CodePoint.ofChar '-' :: t) :=
  ⟨by simp, List.forall_mem_cons.mpr ⟨by decide, h.parts⟩⟩

lemma wordValue?_real (negative : Bool) (h : DecimalParts whole fraction power shift)
    (hreal : fraction.isSome ∨ power.isSome) :
    wordValue? ((if negative then [CodePoint.ofChar '-'] else []) ++ (whole ++ (pointed fraction ++ powered power))) =
      some (.real (.ofDecimal negative (Text.natOfDigits (whole ++ fraction.getD []))
        (shift - (fraction.getD []).length))) := by
  rw [← decimal?_real negative h hreal]
  obtain ⟨c, rest, rfl⟩ := List.exists_cons_of_ne_nil h.whole_ne
  have hc : c.isDigit = true := h.whole_digits c List.mem_cons_self
  cases negative
  · exact wordValue?_digit hc
  · exact wordValue?_minus hc

lemma decimalParts_ofNat (n : ℕ) : DecimalParts (Text.ofNat n) none none 0 where
  whole_digits := Text.allDigits_ofNat n
  whole_ne := Text.ofNat_ne_nil n
  no_zero := by
    intro hhead
    by_cases hn : n = 0
    · rw [hn]
      rfl
    · exact absurd hhead (Text.head?_ofNat hn)
  fraction_digits := by simp
  power_read := by simp
  no_power _ := rfl

lemma isWord_ofInt (n : ℤ) : IsWord (Text.ofInt n) := by
  have hnat (n : ℕ) : IsWord (Text.ofNat n) := by
    have h := (decimalParts_ofNat n).isWord
    rwa [pointed, powered, List.append_nil, List.append_nil] at h
  rcases n with n | n
  · exact hnat n
  · exact (hnat (n + 1)).minus

theorem wordValue?_ofInt (n : ℤ) : wordValue? (Text.ofInt n) = some (.integer n) := by
  rcases n with n | n
  · have hread := decimal?_integer false (decimalParts_ofNat n)
    obtain ⟨c, rest, hcons⟩ := List.exists_cons_of_ne_nil (Text.ofNat_ne_nil n)
    have hc : c.isDigit = true := Text.allDigits_ofNat n c (hcons ▸ List.mem_cons_self)
    rw [Text.ofInt, hcons, wordValue?_digit hc, ← hcons, hread]
    simp
  · have hread := decimal?_integer true (decimalParts_ofNat (n + 1))
    obtain ⟨c, rest, hcons⟩ := List.exists_cons_of_ne_nil (Text.ofNat_ne_nil (n + 1))
    have hc : c.isDigit = true := Text.allDigits_ofNat (n + 1) c (hcons ▸ List.mem_cons_self)
    rw [Text.ofInt, hcons, wordValue?_minus hc, ← hcons, hread]
    simp [Int.negSucc_eq]

end Json.Token

namespace Binary64

open Json Json.Token

/-- A text is an unsigned decimal with a fraction or a power, and the decimal is `q`. -/
def Writes (t : Text) (q : ℚ) : Prop :=
  ∃ whole fraction power shift, t = whole ++ (pointed fraction ++ powered power) ∧
    DecimalParts whole fraction power shift ∧ (fraction.isSome ∨ power.isSome) ∧
    (Text.natOfDigits (whole ++ fraction.getD []) : ℚ) * 10 ^ (shift - ((fraction.getD []).length : ℤ)) = q

lemma integer?_power (k : ℤ) :
    Text.integer? ((if k < 0 then Text.ofString "-" else Text.ofString "+") ++
      (if (Text.ofNat k.natAbs).length = 1 then Text.ofString "0" ++ Text.ofNat k.natAbs
        else Text.ofNat k.natAbs)) = some k := by
  have hdigits : Text.AllDigits (if (Text.ofNat k.natAbs).length = 1 then Text.ofString "0" ++ Text.ofNat k.natAbs
      else Text.ofNat k.natAbs) := by
    split_ifs
    · exact Text.AllDigits.append (Text.allDigits_zeros 1) (Text.allDigits_ofNat _)
    · exact Text.allDigits_ofNat _
  have hvalue : Text.natOfDigits (if (Text.ofNat k.natAbs).length = 1 then
      Text.ofString "0" ++ Text.ofNat k.natAbs else Text.ofNat k.natAbs) = k.natAbs := by
    split_ifs
    · rw [Text.natOfDigits_append, Text.natOfDigits_ofNat, show Text.natOfDigits (Text.ofString "0") = 0 from rfl]
      omega
    · exact Text.natOfDigits_ofNat _
  have hne : (if (Text.ofNat k.natAbs).length = 1 then Text.ofString "0" ++ Text.ofNat k.natAbs
      else Text.ofNat k.natAbs) ≠ [] := by
    split_ifs
    · simp [Text.ofNat_ne_nil]
    · exact Text.ofNat_ne_nil _
  by_cases hk : k < 0
  · rw [if_pos hk]
    have hread := Text.integer?_minus hdigits hne
    rw [hvalue, show -(k.natAbs : ℤ) = k by omega] at hread
    exact hread
  · rw [if_neg hk]
    have hread := Text.integer?_plus hdigits hne
    rw [hvalue, show (k.natAbs : ℤ) = k by omega] at hread
    exact hread

section Layout

variable {digits : Text} (hall : Text.AllDigits digits) (hne : digits ≠ [])
  (hzero : digits.head? ≠ some (CodePoint.ofChar '0'))
include hall hne

lemma writes_fraction (zeros : ℕ) :
    Writes (Text.ofString "0." ++ List.replicate zeros (CodePoint.ofChar '0') ++ digits)
      (Text.natOfDigits digits * 10 ^ (-(zeros : ℤ) - digits.length)) := by
  refine ⟨Text.ofString "0", some (List.replicate zeros (CodePoint.ofChar '0') ++ digits), none, 0, ?_, ?_,
    .inl rfl, ?_⟩
  · simp [pointed, powered, Text.ofString]
  · refine ⟨Text.allDigits_zeros 1, by decide, fun _ => rfl, ?_, by simp, fun _ => rfl⟩
    intro f hf
    obtain rfl := Option.some.inj hf
    exact ⟨(Text.allDigits_zeros _).append hall, by simp [hne]⟩
  · have hvalue : Text.natOfDigits (Text.ofString "0" ++ (List.replicate zeros (CodePoint.ofChar '0') ++ digits)) =
        Text.natOfDigits digits := by
      have hdigit : Text.natOfDigits (Text.ofString "0") = 0 := rfl
      rw [Text.natOfDigits_append, Text.natOfDigits_append, Text.natOfDigits_zeros, hdigit]
      omega
    rw [Option.getD_some, hvalue, List.length_append, List.length_replicate]
    congr 2
    push_cast
    ring

lemma writes_power {power : Text} {shift : ℤ} (hpower : Text.integer? power = some shift) :
    Writes (digits.take 1 ++ (if digits.length = 1 then [] else CodePoint.ofChar '.' :: digits.drop 1) ++
      (CodePoint.ofChar 'e' :: power)) (Text.natOfDigits digits * 10 ^ (shift + 1 - digits.length)) := by
  have hlength : 0 < digits.length := List.length_pos_iff.mpr hne
  have hwhole : Text.AllDigits (digits.take 1) := hall.sublist (List.take_sublist _ _)
  have hfirst : digits.take 1 ≠ [] := by
    rw [Ne, List.take_eq_nil_iff]
    exact fun h => h.elim (by omega) hne
  have hhead : (digits.take 1).head? = some (CodePoint.ofChar '0') → (digits.take 1).length = 1 := by
    intro _
    rw [List.length_take]
    omega
  have hread : ∀ p, some power = some p → Text.integer? p = some shift := by
    intro p hp
    rw [← Option.some.inj hp]
    exact hpower
  by_cases hone : digits.length = 1
  · refine ⟨digits.take 1, none, some power, shift, by simp [hone, pointed, powered],
      ⟨hwhole, hfirst, hhead, by simp, hread, by simp⟩, .inr rfl, ?_⟩
    have hall : digits.take 1 = digits := List.take_of_length_le hone.le
    rw [Option.getD_none, List.append_nil, hall, hone]
    simp
  · refine ⟨digits.take 1, some (digits.drop 1), some power, shift, by simp [hone, pointed, powered],
      ⟨hwhole, hfirst, hhead, ?_, hread, by simp⟩, .inl rfl, ?_⟩
    · intro f hf
      obtain rfl := Option.some.inj hf
      refine ⟨hall.sublist (List.drop_sublist _ _), ?_⟩
      rw [Ne, List.drop_eq_nil_iff]
      omega
    · rw [Option.getD_some, List.take_append_drop, List.length_drop]
      congr 2
      omega

include hzero

lemma writes_whole (zeros : ℕ) :
    Writes (digits ++ List.replicate zeros (CodePoint.ofChar '0') ++ Text.ofString ".0")
      (Text.natOfDigits digits * 10 ^ (zeros : ℤ)) := by
  refine ⟨digits ++ List.replicate zeros (CodePoint.ofChar '0'), some (Text.ofString "0"), none, 0, ?_, ?_,
    .inl rfl, ?_⟩
  · simp [pointed, powered, Text.ofString]
  · refine ⟨hall.append (Text.allDigits_zeros _), by simp [hne], ?_, ?_, by simp, fun _ => rfl⟩
    · intro hhead
      rw [List.head?_append_of_ne_nil _ hne] at hhead
      exact absurd hhead hzero
    · intro f hf
      obtain rfl := Option.some.inj hf
      exact ⟨Text.allDigits_zeros 1, by decide⟩
  · have hdigit : Text.natOfDigits (Text.ofString "0") = 0 := rfl
    have hlength : (Text.ofString "0").length = 1 := rfl
    rw [Option.getD_some, Text.natOfDigits_append, Text.natOfDigits_append, Text.natOfDigits_zeros, hdigit,
      List.length_replicate, hlength, zpow_natCast]
    norm_num
    ring

lemma writes_mixed (place : ℕ) (hpos : 0 < place) (hlt : place < digits.length) :
    Writes (digits.take place ++ Text.ofString "." ++ digits.drop place)
      (Text.natOfDigits digits * 10 ^ ((place : ℤ) - digits.length)) := by
  refine ⟨digits.take place, some (digits.drop place), none, 0, ?_, ?_, .inl rfl, ?_⟩
  · simp [pointed, powered, Text.ofString]
  · refine ⟨hall.sublist (List.take_sublist _ _), ?_, ?_, ?_, by simp, fun _ => rfl⟩
    · rw [Ne, List.take_eq_nil_iff]
      exact fun h => h.elim (by omega) hne
    · intro hhead
      rw [List.head?_take, if_neg (by omega)] at hhead
      exact absurd hhead hzero
    · intro f hf
      obtain rfl := Option.some.inj hf
      refine ⟨hall.sublist (List.drop_sublist _ _), ?_⟩
      rw [Ne, List.drop_eq_nil_iff]
      omega
  · rw [Option.getD_some, List.take_append_drop, List.length_drop]
    congr 2
    omega

/-- The layout of digits writes the decimal that they stand for. -/
lemma writes_layout (point : ℤ) :
    Writes (layout digits point) (Text.natOfDigits digits * 10 ^ (point - (digits.length : ℤ))) := by
  by_cases hrange : -3 ≤ point ∧ point ≤ 16
  swap
  · have h := writes_power hall hne (integer?_power (point - 1))
    rw [show point - 1 + 1 - (digits.length : ℤ) = point - digits.length by omega] at h
    simpa [layout, hrange, Text.ofString] using h
  unfold layout
  dsimp only
  rw [if_pos hrange]
  split_ifs with hlow hlong
  · have h := writes_fraction hall hne point.natAbs
    rwa [show -(point.natAbs : ℤ) - digits.length = point - digits.length by omega] at h
  · have h := writes_whole hall hne hzero (point.natAbs - digits.length)
    rwa [show ((point.natAbs - digits.length : ℕ) : ℤ) = point - digits.length by omega] at h
  · have h := writes_mixed hall hne hzero point.natAbs (by omega) (by omega)
    rwa [show (point.natAbs : ℤ) - digits.length = point - digits.length by omega] at h

end Layout

lemma decimalParts_zero : DecimalParts (Text.ofString "0") (some (Text.ofString "0")) none 0 := by
  refine ⟨Text.allDigits_zeros 1, by decide, fun _ => rfl, ?_, by simp, fun _ => rfl⟩
  intro f hf
  obtain rfl := Option.some.inj hf
  exact ⟨Text.allDigits_zeros 1, by decide⟩

lemma numberText_finite (negative : Bool) {m : ℕ} {e : ℤ} (hc : Canonical m e) :
    ∃ whole fraction power shift, numberText (.finite negative m e) =
        (if negative then [CodePoint.ofChar '-'] else []) ++ (whole ++ (pointed fraction ++ powered power)) ∧
      DecimalParts whole fraction power shift ∧ (fraction.isSome ∨ power.isSome) ∧
      ofDecimal negative (Text.natOfDigits (whole ++ fraction.getD [])) (shift - ((fraction.getD []).length : ℤ)) =
        .finite negative m e := by
  have hsign (t : Text) : (if negative = true then CodePoint.ofChar '-' :: t else t) =
      (if negative = true then [CodePoint.ofChar '-'] else []) ++ t := by
    cases negative <;> rfl
  have htext : numberText (.finite negative m e) = text (.finite negative m e) := by
    rw [numberText] <;> simp
  by_cases hm : m = 0
  · have he : e = leastExponent := by
      rcases hc.normal with h | h
      · omega
      · exact h
    refine ⟨_, _, _, _, ?_, decimalParts_zero, .inl rfl, ?_⟩
    · rw [htext, text, if_pos hm, hsign]
      rfl
    · rw [Option.getD_some, show Text.natOfDigits (Text.ofString "0" ++ Text.ofString "0") = 0 from rfl, ofDecimal, hm,
        he]
      simp [zero]
  · obtain ⟨hall, hne, hzero, hround⟩ := shortest_spec hc (Nat.pos_of_ne_zero hm)
    obtain ⟨whole, fraction, power, shift, hlayout, hparts, hreal, hvalue⟩ :=
      writes_layout hall hne hzero (shortest m e).2
    refine ⟨whole, fraction, power, shift, ?_, hparts, hreal, ?_⟩
    · rw [htext, text, if_neg hm, hsign, ← hlayout]
    · exact ofDecimal_eq negative hc (Nat.pos_of_ne_zero hm) (hvalue ▸ hround)

lemma isWord_numberText {x : Binary64} (hx : x.Kept) : IsWord (numberText x) := by
  rcases x with _ | negative | ⟨negative, m, e⟩
  · exact ⟨by decide, by decide⟩
  · cases negative <;> exact ⟨by decide, by decide⟩
  · obtain ⟨whole, fraction, power, shift, htext, hparts, -, -⟩ := numberText_finite negative hx
    rw [htext]
    cases negative
    · exact hparts.isWord
    · exact hparts.isWord.minus

theorem wordValue?_numberText {x : Binary64} (hx : x.Kept) : wordValue? (numberText x) = some (.real x) := by
  rcases x with _ | negative | ⟨negative, m, e⟩
  · rfl
  · cases negative <;> rfl
  · obtain ⟨whole, fraction, power, shift, htext, hparts, hreal, hvalue⟩ :=
      numberText_finite negative hx
    rw [htext, wordValue?_real negative hparts hreal, hvalue]

end Binary64

end PackageExports
