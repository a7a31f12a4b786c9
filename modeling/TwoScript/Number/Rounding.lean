import TwoScript.Number.Basic

/-!
# Rounding a ratio to a number

`Number.ofRatio` gives the binary64 value nearest to a ratio of natural numbers. A
ratio halfway between two values goes to the one with the even significand, and a
ratio past the greatest finite value is infinite.
-/

namespace TwoScript

/-- The natural number nearest to `n / d`; a half goes to the even neighbour. -/
def roundDiv (n d : Nat) : Nat :=
  let q := n / d
  let r := n % d
  if 2 * r < d then q
  else if d < 2 * r then q + 1
  else q + q % 2

theorem roundDiv_le (n d : Nat) : roundDiv n d ≤ n / d + 1 := by
  unfold roundDiv
  dsimp only
  split
  · omega
  · split <;> omega

theorem le_roundDiv (n d : Nat) : n / d ≤ roundDiv n d := by
  unfold roundDiv
  dsimp only
  split
  · omega
  · split <;> omega

namespace Number

/-- The greatest `g` with `2 ^ g ≤ num / den`, for positive `num` and `den`. -/
def ratioLog (num den : Nat) : Int :=
  let g : Int := (num.log2 : Int) - (den.log2 : Int)
  if den * Nat.pow 2 g.toNat ≤ num * Nat.pow 2 (-g).toNat then g else g - 1

/-- The value `m * 2 ^ e` for a significand of at most `2 ^ precision`. -/
def ofRounded (negative : Bool) (m : Nat) (e : Int) : Number :=
  let (m, e) := if m = Nat.pow 2 precision then (Nat.pow 2 (precision - 1), e + 1) else (m, e)
  if greatestExponent < e then infinite negative else finite negative m e

/-- The value nearest to `num / den`, with the given sign. -/
def ofRatio (negative : Bool) (num den : Nat) : Number :=
  if num = 0 then finite negative 0 leastExponent
  else
    let e := max (ratioLog num den - (precision - 1 : Nat)) leastExponent
    ofRounded negative (roundDiv (num * Nat.pow 2 (-e).toNat) (den * Nat.pow 2 e.toNat)) e

end Number

end TwoScript
