import Mathlib.Data.List.TakeWhile
import TwoScript.Number.Decimal
import TwoScript.Number.Shortest
import TwoScript.Proofs.Number.Rounding
import TwoScript.Proofs.Token.Lexed

/-!
# Numbers read back from their text

The digits that are written for a finite number lie in the interval of rationals that
round to it, so reading them gives the number again.
-/

namespace TwoScript

/-! ## Digits -/

theorem digitsValue_eq (digits : List Char) : digitsValue digits = Nat.ofDigitChars 10 digits 0 :=
  Nat.ofDigitChars_eq_foldl.symm

theorem digitsValue_append (cs ds : List Char) :
    digitsValue (cs ++ ds) = 10 ^ ds.length * digitsValue cs + digitsValue ds := by
  simp only [digitsValue_eq]
  rw [Nat.ofDigitChars_append, Nat.ofDigitChars_eq_ofDigitChars_zero]

theorem digitsValue_toDigits (n : ℕ) : digitsValue (Nat.toDigits 10 n) = n := by
  rw [digitsValue_eq, Nat.ofDigitChars_ten_toDigits]

theorem digitsValue_zeros (k : ℕ) : digitsValue (List.replicate k '0') = 0 := by
  rw [digitsValue_eq, Nat.ofDigitChars_replicate_zero, Nat.mul_zero]

theorem isDigit_of_mem_toDigits {n : ℕ} {c : Char} (h : c ∈ Nat.toDigits 10 n) :
    isDigit c = true := by
  have digit := Nat.isDigit_of_mem_toDigits (by decide) (by decide) h
  simpa [Char.isDigit, isDigit, Char.le_def] using digit

theorem digitsValue_paddedDigits (n width : ℕ) : digitsValue (paddedDigits n width) = n := by
  rw [paddedDigits, digitsValue_append, digitsValue_zeros, digitsValue_toDigits]
  simp

theorem isDigit_of_mem_paddedDigits {n width : ℕ} {c : Char} (h : c ∈ paddedDigits n width) :
    isDigit c = true := by
  rcases List.mem_append.mp h with zero | digit
  · rw [List.eq_of_mem_replicate zero]
    decide
  · exact isDigit_of_mem_toDigits digit

theorem length_paddedDigits {n width : ℕ} (h : n < 10 ^ width) (positive : 0 < width) :
    (paddedDigits n width).length = width := by
  have := (Nat.length_toDigits_le_iff (by decide) positive).mpr h
  simp only [paddedDigits, List.length_append, List.length_replicate]
  omega

/-- Digits without the zeros at their end. -/
theorem exists_trimmed (digits : List Char) : ∃ trimmed zeros,
    (digits.reverse.dropWhile (· == '0')).reverse = trimmed ∧
      digits = trimmed ++ List.replicate zeros '0' := by
  refine ⟨_, (digits.reverse.takeWhile (· == '0')).length, rfl, ?_⟩
  have zeros : digits.reverse.takeWhile (· == '0') =
      List.replicate (digits.reverse.takeWhile (· == '0')).length '0' := by
    refine List.eq_replicate_of_mem fun c hc => ?_
    have := List.mem_takeWhile_imp hc
    simpa using this
  have whole := congrArg List.reverse
    (List.takeWhile_append_dropWhile (p := (· == '0')) (l := digits.reverse))
  rw [List.reverse_append, List.reverse_reverse, zeros, List.reverse_replicate] at whole
  exact whole.symm

/-- The digits of a positional text write the ratio it was made from. -/
theorem positional_digits (n places : ℕ) : ∃ whole fraction,
    (positional n places).toList = whole ++ pointed fraction ∧ whole ≠ [] ∧
      (∀ c ∈ whole, isDigit c = true) ∧ (∀ c ∈ fraction, isDigit c = true) ∧
      (digitsValue (whole ++ fraction) : ℚ) / 10 ^ fraction.length = n / 10 ^ places := by
  obtain ⟨fraction, zeros, trimmed, padded⟩ := exists_trimmed (paddedDigits (n % 10 ^ places) places)
  refine ⟨Nat.toDigits 10 (n / 10 ^ places), fraction, ?_, Nat.toDigits_ne_nil, ?_, ?_, ?_⟩
  · simp only [positional, Nat.pow_eq, pointed, ← trimmed, List.isEmpty_iff, List.reverse_eq_nil_iff]
    split <;> simp
  · intro c hc
    exact isDigit_of_mem_toDigits hc
  · intro c hc
    have member : c ∈ paddedDigits (n % 10 ^ places) places := by
      rw [padded]
      exact List.mem_append_left _ hc
    exact isDigit_of_mem_paddedDigits member
  · have value := digitsValue_paddedDigits (n % 10 ^ places) places
    rw [padded, digitsValue_append, digitsValue_zeros, List.length_replicate, Nat.add_zero] at value
    have split := Nat.div_add_mod n (10 ^ places)
    rw [digitsValue_append, digitsValue_toDigits]
    rcases Nat.eq_zero_or_pos places with rfl | positive
    · have none : digitsValue fraction = 0 := by simpa [Nat.mod_one] using value
      rw [none]
      push_cast
      simp
    · have length := length_paddedDigits (Nat.mod_lt n (show 0 < 10 ^ places by positivity)) positive
      rw [padded, List.length_append, List.length_replicate] at length
      have whole : (n : ℚ) = 10 ^ places * (n / 10 ^ places : ℕ) +
          10 ^ zeros * digitsValue fraction := by
        rw [← value] at split
        exact_mod_cast split.symm
      have powers : (10 : ℚ) ^ places = 10 ^ fraction.length * 10 ^ zeros := by
        rw [← pow_add, length]
      rw [whole, powers]
      push_cast
      field_simp

namespace Number

/-! ## The reach of a value -/

/-- A quarter of the unit of a value, scaled like its reach. -/
def quarter (e : ℤ) : ℕ :=
  if e < 2 then 5 ^ (2 - e).toNat else 2 ^ (e - 2).toNat

theorem quarter_pos (e : ℤ) : 0 < quarter e := by
  unfold quarter
  split <;> positivity

theorem reach_eq (m : ℕ) (e : ℤ) : reach m e =
    ⟨(4 * m - lowerGap m e) * quarter e, 4 * m * quarter e, (4 * m + 2) * quarter e, (2 - e).toNat,
      m % 2 == 0⟩ :=
  rfl

theorem quarter_scale (e : ℤ) : (10 : ℚ) ^ (2 - e).toNat * 2 ^ e = 4 * quarter e := by
  unfold quarter
  split
  · rename_i small
    have cancel : (2 : ℚ) ^ (2 - e).toNat * 2 ^ e = 4 := by
      rw [← zpow_natCast, ← zpow_add₀ (by norm_num), show ((2 - e).toNat : ℤ) + e = 2 by omega]
      norm_num
    have ten : (10 : ℚ) = 2 * 5 := by norm_num
    rw [ten, mul_pow, mul_right_comm, cancel]
    push_cast
    rfl
  · rename_i large
    have none : (2 - e).toNat = 0 := by omega
    have exponent : e = 2 + ((e - 2).toNat : ℤ) := by omega
    rw [none, pow_zero, one_mul]
    conv_lhs => rw [exponent, zpow_add₀ (by norm_num), zpow_natCast]
    push_cast
    norm_num

/-- What the reach of a value holds is rounded to the value. -/
theorem roundsTo_of_holds {m : ℕ} {e : ℤ} {n : ℕ} (hm : 0 < m) (h : (reach m e).holds n = true) :
    RoundsTo m e (n / 10 ^ (2 - e).toNat) := by
  have hq : (0 : ℚ) < 4 * quarter e := by have := quarter_pos e; positivity
  have gap := lowerGap_le m e
  have low : ((4 * m - lowerGap m e : ℕ) : ℚ) = 4 * m - lowerGap m e := by
    push_cast [Nat.cast_sub (show lowerGap m e ≤ 4 * m by omega)]
    rfl
  have unit : (n : ℚ) / 10 ^ (2 - e).toNat / 2 ^ e = n / (4 * quarter e) := by
    rw [div_div, quarter_scale]
  rw [reach_eq] at h
  simp only [Reach.holds, beq_iff_eq] at h
  constructor
  · rw [unit, le_div_iff₀ hq]
    have : (4 * m - lowerGap m e) * quarter e ≤ n := by split at h <;> simp at h <;> omega
    have : ((4 * m - lowerGap m e : ℕ) : ℚ) * quarter e ≤ n := by exact_mod_cast this
    rw [low] at this
    linarith
  · rw [unit, div_le_iff₀ hq]
    have : n ≤ (4 * m + 2) * quarter e := by split at h <;> simp at h <;> omega
    have : (n : ℚ) ≤ (4 * m + 2) * quarter e := by exact_mod_cast this
    linarith
  · intro odd
    rw [if_neg (by omega)] at h
    simp only [Bool.and_eq_true, decide_eq_true_eq] at h
    rw [unit, lt_div_iff₀ hq, div_lt_iff₀ hq]
    have below : ((4 * m - lowerGap m e : ℕ) : ℚ) * quarter e < n := by exact_mod_cast h.1
    have above : (n : ℚ) < (4 * m + 2) * quarter e := by exact_mod_cast h.2
    rw [low] at below
    constructor <;> linarith

theorem holds_value {m : ℕ} {e : ℤ} (hm : 0 < m) : (reach m e).holds (reach m e).value = true := by
  have hq := quarter_pos e
  have gap : 0 < lowerGap m e := by unfold lowerGap; split <;> omega
  have below : (4 * m - lowerGap m e) * quarter e < 4 * m * quarter e :=
    Nat.mul_lt_mul_of_pos_right (by omega) hq
  have above : 4 * m * quarter e < (4 * m + 2) * quarter e :=
    Nat.mul_lt_mul_of_pos_right (by omega) hq
  rw [reach_eq]
  simp only [Reach.holds]
  split <;> simp <;> omega

/-! ## Reading digits -/

/-- A ratio that rounds to a positive value is at least half the least one. -/
theorem RoundsTo.lower_bound {m : ℕ} {e : ℤ} {q : ℚ} (hm : 0 < m)
    (canonical : (finite false m e).Canonical) (h : RoundsTo m e q) : (2 : ℚ) ^ (-1075 : ℤ) ≤ q := by
  have power : (0 : ℚ) < 2 ^ e := by positivity
  have gap : (lowerGap m e : ℚ) ≤ 2 := by exact_mod_cast lowerGap_le m e
  have one : (1 : ℚ) ≤ m := by exact_mod_cast hm
  have half : (2 : ℚ) ^ (-1 : ℤ) ≤ q / 2 ^ e := by
    rw [show (2 : ℚ) ^ (-1 : ℤ) = 1 / 2 by norm_num]
    linarith [h.low]
  rw [le_div_iff₀ power, ← zpow_add₀ (by norm_num)] at half
  refine le_trans (zpow_le_zpow_right₀ (by norm_num) ?_) half
  have := (canonical_finite.mp canonical).2.1
  omega

/-- Digits whose value is that large are not settled as zero. -/
theorem digits_not_tiny {n k : ℕ} (h : (2 : ℚ) ^ (-1075 : ℤ) ≤ n / 10 ^ k) :
    ¬(-(k : ℤ) + n.log2 + 1 < -400) := by
  intro tiny
  have eight : (2 : ℚ) ^ (3 * k) ≤ 10 ^ k := by
    rw [pow_mul]
    exact pow_le_pow_left₀ (by norm_num) (by norm_num) k
  have bits : (n : ℚ) < 2 ^ (n.log2 + 1) := by exact_mod_cast Nat.lt_log2_self
  rw [le_div_iff₀ (by positivity)] at h
  have chain : (2 : ℚ) ^ (-1075 + (3 * k : ℕ) : ℤ) < 2 ^ ((n.log2 + 1 : ℕ) : ℤ) := by
    rw [zpow_add₀ (by norm_num), zpow_natCast, zpow_natCast]
    calc (2 : ℚ) ^ (-1075 : ℤ) * 2 ^ (3 * k) ≤ 2 ^ (-1075 : ℤ) * 10 ^ k := by gcongr
      _ ≤ n := h
      _ < 2 ^ (n.log2 + 1) := bits
  have := (zpow_lt_zpow_iff_right₀ (by norm_num)).mp chain
  omega

theorem ofDigits_of_roundsTo {whole fraction : List Char} {m : ℕ} {e : ℤ} (hm : 0 < m)
    (canonical : (finite false m e).Canonical)
    (h : RoundsTo m e (digitsValue (whole ++ fraction) / 10 ^ fraction.length)) :
    ofDigits whole fraction = finite false m e := by
  have bound := h.lower_bound hm canonical
  have positive : 0 < digitsValue (whole ++ fraction) := by
    by_contra zero
    rw [Nat.eq_zero_of_not_pos zero, Nat.cast_zero, zero_div] at bound
    exact absurd bound (not_le.mpr (by positivity))
  rw [ofDigits, ofDecimal, if_neg, if_neg (by omega)]
  · simp only [Nat.pow_eq, Int.neg_neg, Int.toNat_natCast, Int.toNat_neg_natCast, pow_zero, mul_one]
    refine ofRatio_of_roundsTo positive (by positivity) canonical ?_
    exact_mod_cast h
  · rw [not_or]
    exact ⟨positive.ne', digits_not_tiny bound⟩

/-- A value that was read from digits is infinite or kept in its one form. -/
theorem ofDigits_finite (whole fraction : List Char) :
    ofDigits whole fraction = infinite false ∨ ∃ m e,
      ofDigits whole fraction = finite false m e ∧ (finite false m e).Canonical := by
  rw [ofDigits, ofDecimal]
  split
  · exact .inr ⟨0, -1074, rfl, by decide⟩
  · split
    · exact .inl rfl
    · exact ofRatio_finite false _ (Nat.pow_pos (by decide))

/-- The text of a finite number that was read from digits holds digits that are read as
the same number. -/
theorem textWith_digits (infinity : String) (whole fraction : List Char)
    (isFinite : ofDigits whole fraction ≠ infinite false) : ∃ ws fs,
      ((ofDigits whole fraction).textWith infinity).toList = ws ++ pointed fs ∧ ws ≠ [] ∧
        (∀ c ∈ ws, isDigit c = true) ∧ (∀ c ∈ fs, isDigit c = true) ∧
        ofDigits ws fs = ofDigits whole fraction := by
  rcases ofDigits_finite whole fraction with infinite | ⟨m, e, value, canonical⟩
  · exact (isFinite infinite).elim
  rw [value]
  rcases Nat.eq_zero_or_pos m with rfl | hm
  · have least : e = -1074 := by
      have := (canonical_finite.mp canonical).2.2.2
      omega
    subst least
    exact ⟨['0'], [], by simp [textWith, pointed], by simp, by simp [isDigit], by simp, rfl⟩
  · have holds := within_roundest (holds_value hm (e := e))
      ((Nat.toDigits 10 (reach m e).value).length - 1)
    obtain ⟨ws, fs, text, some, left, right, ratio⟩ := positional_digits
      (roundest (reach m e).holds (reach m e).value
        ((Nat.toDigits 10 (reach m e).value).length - 1)) (2 - e).toNat
    refine ⟨ws, fs, ?_, some, left, right, ofDigits_of_roundsTo hm canonical ?_⟩
    · simp only [textWith, if_neg hm.ne', magnitudeText]
      exact text
    · rw [ratio]
      exact roundsTo_of_holds hm holds

end Number

end TwoScript
