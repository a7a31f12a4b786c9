import Mathlib.Algebra.Order.Field.Power
import Mathlib.Data.Int.Log
import Mathlib.Data.Rat.Floor
import TwoScript.Number.Rounding

/-!
# Rounding in the rationals

`Number.ofRatio` computes with natural numbers. Here its steps are read in the
rationals: the exponent comes from the binary logarithm of the ratio, and a ratio that
lies nearer to `m * 2 ^ e` than to its neighbours is rounded to it.
-/

namespace TwoScript

/-- The quotient that is rounded is nearer to `m` than to any other natural number, and
halfway only if `m` is even. -/
theorem roundDiv_eq_of_near {n d m : ℕ} (hd : 0 < d) (low : 2 * (m * d) ≤ 2 * n + d)
    (high : 2 * n ≤ 2 * (m * d) + d)
    (tie : m % 2 = 1 → 2 * (m * d) < 2 * n + d ∧ 2 * n < 2 * (m * d) + d) :
    roundDiv n d = m := by
  have whole := Nat.div_add_mod n d
  have hr := Nat.mod_lt n hd
  unfold roundDiv
  dsimp only
  generalize n / d = q at *
  generalize n % d = r at *
  have le : q ≤ m := by
    by_contra above
    have : d * (m + 1) ≤ d * q := Nat.mul_le_mul_left d (by omega)
    have : m * d = d * m := Nat.mul_comm m d
    have : d * (m + 1) = d * m + d := by ring
    omega
  have ge : m ≤ q + 1 := by
    by_contra below
    have : d * (q + 2) ≤ d * m := Nat.mul_le_mul_left d (by omega)
    have : m * d = d * m := Nat.mul_comm m d
    have : d * (q + 2) = d * q + 2 * d := by ring
    omega
  rcases Nat.lt_or_ge q m with less | same
  · obtain rfl : m = q + 1 := by omega
    have : (q + 1) * d = d * q + d := by ring
    split
    · omega
    · split
      · rfl
      · have : (q + 1) % 2 ≠ 1 := fun odd => by have := tie odd; omega
        omega
  · obtain rfl : q = m := by omega
    have : q * d = d * q := Nat.mul_comm q d
    split
    · rfl
    · have : q % 2 ≠ 1 := fun odd => by have := tie odd; omega
      split
      · omega
      · omega

theorem two_zpow_eq_div (e : ℤ) : (2 : ℚ) ^ e = 2 ^ e.toNat / 2 ^ (-e).toNat := by
  have split : e = (e.toNat : ℤ) - ((-e).toNat : ℤ) := by omega
  conv_lhs => rw [split]
  rw [zpow_sub₀ (by norm_num), zpow_natCast, zpow_natCast]

theorem zpow_le_iff_le_log {q : ℚ} (hq : 0 < q) (k : ℤ) : (2 : ℚ) ^ k ≤ q ↔ k ≤ Int.log 2 q := by
  have := Int.zpow_le_iff_le_log (b := 2) (by norm_num) hq (x := k)
  rwa [Nat.cast_ofNat] at this

theorem lt_zpow_iff_log_lt {q : ℚ} (hq : 0 < q) (k : ℤ) : q < (2 : ℚ) ^ k ↔ Int.log 2 q < k := by
  rw [← not_le, zpow_le_iff_le_log hq, not_le]

namespace Number

/-- Comparing a ratio with a power of two is a comparison of natural numbers. -/
theorem zpow_le_ratio_iff {num den : ℕ} (hd : 0 < den) (g : ℤ) :
    (2 : ℚ) ^ g ≤ num / den ↔ den * 2 ^ g.toNat ≤ num * 2 ^ (-g).toNat := by
  have hd' : (0 : ℚ) < den := by exact_mod_cast hd
  rw [two_zpow_eq_div, div_le_div_iff₀ (by positivity) hd', mul_comm _ (den : ℚ)]
  exact_mod_cast Iff.rfl

theorem ratioLog_eq_log {num den : ℕ} (hn : 0 < num) (hd : 0 < den) :
    ratioLog num den = Int.log 2 ((num : ℚ) / den) := by
  have hn' : (0 : ℚ) < num := by exact_mod_cast hn
  have hd' : (0 : ℚ) < den := by exact_mod_cast hd
  have positive : (0 : ℚ) < num / den := div_pos hn' hd'
  have lowNum : (2 : ℚ) ^ (num.log2 : ℤ) ≤ num := by
    rw [zpow_natCast]
    exact_mod_cast Nat.log2_self_le hn.ne'
  have highNum : (num : ℚ) < 2 ^ ((num.log2 : ℤ) + 1) := by
    rw [← Nat.cast_succ, zpow_natCast]
    exact_mod_cast Nat.lt_log2_self
  have lowDen : (2 : ℚ) ^ (den.log2 : ℤ) ≤ den := by
    rw [zpow_natCast]
    exact_mod_cast Nat.log2_self_le hd.ne'
  have highDen : (den : ℚ) < 2 ^ ((den.log2 : ℤ) + 1) := by
    rw [← Nat.cast_succ, zpow_natCast]
    exact_mod_cast Nat.lt_log2_self
  have low : (2 : ℚ) ^ ((num.log2 : ℤ) - den.log2 - 1) ≤ num / den := by
    rw [sub_sub, zpow_sub₀ (by norm_num)]
    gcongr
  have high : (num : ℚ) / den < 2 ^ ((num.log2 : ℤ) - den.log2 + 1) := by
    rw [sub_add_eq_add_sub, zpow_sub₀ (by norm_num)]
    gcongr
  have atLeast := (zpow_le_iff_le_log positive _).mp low
  have atMost := (lt_zpow_iff_log_lt positive _).mp high
  have exact := zpow_le_iff_le_log positive ((num.log2 : ℤ) - den.log2)
  rw [zpow_le_ratio_iff hd] at exact
  unfold ratioLog
  dsimp only [Nat.pow_eq]
  split
  · rename_i reached
    have := exact.mp reached
    omega
  · rename_i missed
    have : ¬(num.log2 : ℤ) - den.log2 ≤ Int.log 2 ((num : ℚ) / den) := fun h => missed (exact.mpr h)
    omega

/-- The ratio that is rounded, in units of `2 ^ e`. -/
theorem scaled_ratio {num den : ℕ} (e : ℤ) :
    ((num * 2 ^ (-e).toNat : ℕ) : ℚ) / (den * 2 ^ e.toNat : ℕ) = num / den / 2 ^ e := by
  rw [two_zpow_eq_div]
  push_cast
  field_simp

theorem roundDiv_eq_of_ratio {n d m : ℕ} (hd : 0 < d) (low : (m : ℚ) - 1 / 2 ≤ n / d)
    (high : (n : ℚ) / d ≤ m + 1 / 2)
    (tie : m % 2 = 1 → (m : ℚ) - 1 / 2 < n / d ∧ (n : ℚ) / d < m + 1 / 2) :
    roundDiv n d = m := by
  have hd' : (0 : ℚ) < d := by exact_mod_cast hd
  rw [le_div_iff₀ hd'] at low
  rw [div_le_iff₀ hd'] at high
  rw [lt_div_iff₀ hd', div_lt_iff₀ hd'] at tie
  refine roundDiv_eq_of_near hd ?_ ?_ fun odd => ⟨?_, ?_⟩
  · have : (2 * (m * d) : ℚ) ≤ 2 * n + d := by linarith
    exact_mod_cast this
  · have : (2 * n : ℚ) ≤ 2 * (m * d) + d := by linarith
    exact_mod_cast this
  · have : (2 * (m * d) : ℚ) < 2 * n + d := by linarith [(tie odd).1]
    exact_mod_cast this
  · have : (2 * n : ℚ) < 2 * (m * d) + d := by linarith [(tie odd).2]
    exact_mod_cast this

def scale (q : ℚ) : ℤ :=
  max (Int.log 2 q - (precision - 1 : ℕ)) leastExponent

/-- Rounding a ratio is rounding its quotient by a power of two. -/
theorem ofRatio_eq {negative : Bool} {num den m : ℕ} (hn : 0 < num) (hd : 0 < den)
    (low : (m : ℚ) - 1 / 2 ≤ num / den / 2 ^ scale (num / den))
    (high : (num : ℚ) / den / 2 ^ scale (num / den) ≤ m + 1 / 2)
    (tie : m % 2 = 1 → (m : ℚ) - 1 / 2 < num / den / 2 ^ scale (num / den) ∧
      (num : ℚ) / den / 2 ^ scale (num / den) < m + 1 / 2) :
    ofRatio negative num den = ofRounded negative m (scale (num / den)) := by
  rw [ofRatio, if_neg hn.ne', ratioLog_eq_log hn hd]
  show ofRounded _ (roundDiv (num * 2 ^ (-scale _).toNat) (den * 2 ^ (scale _).toNat)) (scale _) = _
  rw [roundDiv_eq_of_ratio (m := m) (by positivity) (by rwa [scaled_ratio]) (by rwa [scaled_ratio])
    (by rwa [scaled_ratio])]

/-- Four times the distance from a value to the end of its interval on the lower side. -/
def lowerGap (m : ℕ) (e : ℤ) : ℕ :=
  if m = 2 ^ (precision - 1) ∧ e ≠ leastExponent then 1 else 2

theorem lowerGap_le (m : ℕ) (e : ℤ) : lowerGap m e ≤ 2 := by
  unfold lowerGap
  split <;> omega

/-- The rationals that are rounded to `m * 2 ^ e`. -/
structure RoundsTo (m : ℕ) (e : ℤ) (q : ℚ) : Prop where
  low : (m : ℚ) - lowerGap m e / 4 ≤ q / 2 ^ e
  high : q / 2 ^ e ≤ m + 1 / 2
  tie : m % 2 = 1 → (m : ℚ) - lowerGap m e / 4 < q / 2 ^ e ∧ q / 2 ^ e < m + 1 / 2

theorem canonical_finite {negative : Bool} {m : ℕ} {e : ℤ} :
    (finite negative m e).Canonical ↔
      m < 2 ^ 53 ∧ -1074 ≤ e ∧ e ≤ 971 ∧ (e = -1074 ∨ 2 ^ 52 ≤ m) :=
  Iff.rfl

/-- The exponent of a value that is kept in its own binade. -/
theorem scale_eq {q : ℚ} {e : ℤ} (hq : 0 < q) (least : -1074 ≤ e)
    (low : e = -1074 ∨ 2 ^ 52 ≤ q / 2 ^ e) (high : q / 2 ^ e < 2 ^ 53) : scale q = e := by
  have power : (0 : ℚ) < 2 ^ e := by positivity
  have above : Int.log 2 q < 53 + e := by
    rw [← lt_zpow_iff_log_lt hq, zpow_add₀ (by norm_num), ← div_lt_iff₀ power]
    exact_mod_cast high
  have below : e = -1074 ∨ 52 + e ≤ Int.log 2 q := by
    refine low.imp_right fun low => ?_
    rw [← zpow_le_iff_le_log hq, zpow_add₀ (by norm_num), ← le_div_iff₀ power]
    exact_mod_cast low
  simp only [scale, precision, leastExponent]
  omega

theorem ofRounded_of_lt {negative : Bool} {m : ℕ} {e : ℤ} (fits : m < 2 ^ 53) :
    ofRounded negative m e = if 971 < e then infinite negative else finite negative m e := by
  have small : m ≠ Nat.pow 2 precision := fits.ne
  simp only [ofRounded, if_neg small]
  rfl

theorem ofRounded_carry {negative : Bool} {e : ℤ} :
    ofRounded negative (2 ^ 53) e =
      if 971 < e + 1 then infinite negative else finite negative (2 ^ 52) (e + 1) := by
  simp only [ofRounded, precision, Nat.pow_eq, if_true]
  rfl

/-- A ratio in the interval of a value is rounded to that value. -/
theorem ofRatio_of_roundsTo {negative : Bool} {num den m : ℕ} {e : ℤ} (hn : 0 < num)
    (hd : 0 < den) (canonical : (finite negative m e).Canonical)
    (h : RoundsTo m e (num / den)) : ofRatio negative num den = finite negative m e := by
  have hq : (0 : ℚ) < num / den := by positivity
  obtain ⟨fits, least, greatest, normal⟩ := canonical_finite.mp canonical
  obtain ⟨low, high, tie⟩ := h
  by_cases under : m = 2 ^ 52 ∧ e ≠ -1074 ∧ (num : ℚ) / den / 2 ^ e < 2 ^ 52
  · -- The ratio lies just below a power of two and is rounded up to it.
    obtain ⟨rfl, above, under⟩ := under
    have gap : lowerGap (2 ^ 52) e = 1 := if_pos ⟨rfl, above⟩
    have half : (num : ℚ) / den / 2 ^ (e - 1) = 2 * (num / den / 2 ^ e) := by
      rw [zpow_sub_one₀ (by norm_num)]
      field_simp
    rw [gap] at low
    push_cast at low
    have exponent : scale (num / den) = e - 1 :=
      scale_eq hq (by omega) (.inr (by rw [half]; linarith)) (by rw [half]; linarith)
    rw [ofRatio_eq (m := 2 ^ 53) hn hd, exponent, ofRounded_carry, if_neg (by omega)]
    · rw [sub_add_cancel]
    · rw [exponent, half]
      push_cast
      linarith
    · rw [exponent, half]
      push_cast
      linarith
    · norm_num
  · have gap : (lowerGap m e : ℚ) ≤ 2 := by exact_mod_cast lowerGap_le m e
    have near : (m : ℚ) - 1 / 2 ≤ num / den / 2 ^ e := by linarith
    have tie' : m % 2 = 1 → (m : ℚ) - 1 / 2 < num / den / 2 ^ e ∧
        (num : ℚ) / den / 2 ^ e < m + 1 / 2 := fun odd => ⟨by linarith [(tie odd).1], (tie odd).2⟩
    have below : (num : ℚ) / den / 2 ^ e < 2 ^ 53 := by
      rcases Nat.lt_or_ge (m + 1) (2 ^ 53) with less | last
      · have : (m : ℚ) + 1 + 1 ≤ 2 ^ 53 := by exact_mod_cast less
        linarith
      · have odd := (tie' (by omega)).2
        have : (m : ℚ) + 1 ≤ 2 ^ 53 := by exact_mod_cast fits
        linarith
    have above : e = -1074 ∨ (2 : ℚ) ^ 52 ≤ num / den / 2 ^ e := by
      rcases normal with least | normal
      · exact .inl least
      · rcases Nat.lt_or_ge (2 ^ 52) m with more | most
        · have : (2 : ℚ) ^ 52 + 1 ≤ m := by exact_mod_cast more
          exact .inr (by linarith)
        · by_contra neither
          rw [not_or, not_le] at neither
          exact under ⟨by omega, neither⟩
    have exponent : scale (num / den) = e := scale_eq hq least above below
    rw [ofRatio_eq (m := m) hn hd, exponent, ofRounded_of_lt fits, if_neg (by omega)]
    · rwa [exponent]
    · rwa [exponent]
    · rwa [exponent]

theorem ofRounded_finite {negative : Bool} {m : ℕ} {e : ℤ} (fits : m ≤ 2 ^ 53) (least : -1074 ≤ e)
    (normal : e = -1074 ∨ 2 ^ 52 ≤ m) :
    ofRounded negative m e = infinite negative ∨ ∃ m' e',
      ofRounded negative m e = finite negative m' e' ∧ (finite negative m' e').Canonical := by
  rcases fits.lt_or_eq with less | rfl
  · rw [ofRounded_of_lt less]
    split
    · exact .inl rfl
    · exact .inr ⟨m, e, rfl, canonical_finite.mpr (by omega)⟩
  · rw [ofRounded_carry]
    split
    · exact .inl rfl
    · exact .inr ⟨2 ^ 52, e + 1, rfl, canonical_finite.mpr (by omega)⟩

/-- Every finite result of rounding is kept in its one form. -/
theorem ofRatio_finite (negative : Bool) (num : ℕ) {den : ℕ} (hd : 0 < den) :
    ofRatio negative num den = infinite negative ∨ ∃ m e,
      ofRatio negative num den = finite negative m e ∧ (finite negative m e).Canonical := by
  by_cases zero : num = 0
  · subst zero
    exact .inr ⟨0, -1074, rfl, canonical_finite.mpr (by omega)⟩
  have hn : 0 < num := Nat.pos_of_ne_zero zero
  have hq : (0 : ℚ) < num / den := by positivity
  have power : (0 : ℚ) < 2 ^ scale (num / den) := by positivity
  rw [ofRatio, if_neg zero, ratioLog_eq_log hn hd]
  show ofRounded _ (roundDiv (num * 2 ^ (-scale _).toNat) (den * 2 ^ (scale _).toNat)) (scale _) = _ ∨
    ∃ m e, ofRounded _ (roundDiv (num * 2 ^ (-scale _).toNat) (den * 2 ^ (scale _).toNat)) (scale _) = _
      ∧ _
  have positive : 0 < den * 2 ^ (scale (num / den)).toNat := by positivity
  have below : (num : ℚ) / den / 2 ^ scale (num / den) < 2 ^ 53 := by
    rw [div_lt_iff₀ power, ← zpow_natCast, ← zpow_add₀ (by norm_num), lt_zpow_iff_log_lt hq]
    simp only [scale, precision, leastExponent]
    omega
  have above : scale (num / den) = -1074 ∨ (2 : ℚ) ^ 52 ≤ num / den / 2 ^ scale (num / den) := by
    rw [le_div_iff₀ power, ← zpow_natCast, ← zpow_add₀ (by norm_num), zpow_le_iff_le_log hq]
    simp only [scale, precision, leastExponent]
    omega
  rw [← scaled_ratio] at below above
  refine ofRounded_finite ?_ (le_max_right _ _) ?_
  · have := roundDiv_le (num * 2 ^ (-scale (num / den)).toNat) (den * 2 ^ (scale (num / den)).toNat)
    have : (num * 2 ^ (-scale (num / den)).toNat) / (den * 2 ^ (scale (num / den)).toNat) < 2 ^ 53 := by
      rw [Nat.div_lt_iff_lt_mul positive]
      rw [div_lt_iff₀ (by exact_mod_cast positive)] at below
      exact_mod_cast below
    omega
  · refine above.imp_right fun above => ?_
    refine le_trans ?_ (le_roundDiv _ _)
    rw [Nat.le_div_iff_mul_le positive]
    rw [le_div_iff₀ (by exact_mod_cast positive)] at above
    exact_mod_cast above

end Number

end TwoScript
