/-!
# Numbers

A number of the language is a binary64 value. It is kept as data, a sign with a
significand and a binary exponent, so equality of numbers is equality of values
and every operation is exact arithmetic on natural numbers.
-/

namespace TwoScript

/-- A binary64 value. `finite n m e` is `m * 2 ^ e`, below zero when `n` holds; zero
has a sign of its own. -/
inductive Number where
  | nan
  | infinite (negative : Bool)
  | finite (negative : Bool) (significand : Nat) (exponent : Int)
deriving DecidableEq, Repr, Inhabited

namespace Number

def precision : Nat := 53

def leastExponent : Int := -1074

def greatestExponent : Int := 971

def negate : Number → Number
  | nan => nan
  | infinite negative => infinite (!negative)
  | finite negative m e => finite (!negative) m e

@[simp] theorem negate_negate (x : Number) : x.negate.negate = x := by
  cases x <;> simp [negate]

/-- The one form in which a finite value is kept: the significand fits, the exponent
is in range, and the significand is short only at the least exponent. -/
def Canonical : Number → Prop
  | nan => True
  | infinite _ => True
  | finite _ m e =>
    m < Nat.pow 2 precision ∧ leastExponent ≤ e ∧ e ≤ greatestExponent ∧
      (e = leastExponent ∨ Nat.pow 2 (precision - 1) ≤ m)

instance : DecidablePred Canonical
  | nan => isTrue trivial
  | infinite _ => isTrue trivial
  | finite _ m e =>
    inferInstanceAs (Decidable (m < Nat.pow 2 precision ∧ leastExponent ≤ e ∧
      e ≤ greatestExponent ∧ (e = leastExponent ∨ Nat.pow 2 (precision - 1) ≤ m)))

end Number

end TwoScript
