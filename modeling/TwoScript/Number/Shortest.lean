import TwoScript.Number.Basic

/-!
# The text of a number

A finite number is written with the fewest digits that read back as the same
number, nearest to it among those, always positionally: no exponent, no point
without digits behind it.

The search works on natural numbers. The value and the ends of the interval that
rounds to it are scaled to a common power of ten, and `roundest` looks for a
multiple of a high power of ten inside that interval.
-/

namespace TwoScript

/-- The number accepted by `within` that is nearest to `value` among the multiples of
the highest possible power of ten, not above `10 ^ places`. Of two that are equally
near the greater is taken, and `value` itself is the last resort. -/
def roundest (within : Nat → Bool) (value : Nat) : Nat → Nat
  | 0 => value
  | places + 1 =>
    let unit := Nat.pow 10 (places + 1)
    let below := value / unit * unit
    let above := below + unit
    match within below, within above with
    | true, true => if value - below < above - value then below else above
    | true, false => below
    | false, true => above
    | false, false => roundest within value places

theorem within_roundest {within : Nat → Bool} {value : Nat} (h : within value = true)
    (places : Nat) : within (roundest within value places) = true := by
  induction places with
  | zero => simpa [roundest] using h
  | succ places ih =>
    simp only [roundest]
    split
    · split <;> assumption
    · assumption
    · assumption
    · exact ih

def paddedDigits (n width : Nat) : List Char :=
  let digits := Nat.toDigits 10 n
  List.replicate (width - digits.length) '0' ++ digits

/-- The text of `n / 10 ^ places`, without zeros at the end of its fraction. -/
def positional (n places : Nat) : String :=
  let fraction := (paddedDigits (n % Nat.pow 10 places) places).reverse.dropWhile (· == '0')
  let whole := String.ofList (Nat.toDigits 10 (n / Nat.pow 10 places))
  if fraction.isEmpty then whole else whole ++ "." ++ String.ofList fraction.reverse

namespace Number

/-- A positive value and the ends of the interval of reals that round to it, each
times `10 ^ places`. The ends belong to the interval when `closed` holds. -/
structure Reach where
  low : Nat
  value : Nat
  high : Nat
  places : Nat
  closed : Bool
deriving Repr

/-- The reach of `m * 2 ^ e`. The lower end is nearer where the exponent changes. -/
def reach (m : Nat) (e : Int) : Reach :=
  let factor := if e < 2 then Nat.pow 5 (2 - e).toNat else Nat.pow 2 (e - 2).toNat
  let gap := if m = Nat.pow 2 (precision - 1) ∧ e ≠ leastExponent then 1 else 2
  { low := (4 * m - gap) * factor
    value := 4 * m * factor
    high := (4 * m + 2) * factor
    places := (2 - e).toNat
    closed := m % 2 == 0 }

def Reach.holds (r : Reach) (n : Nat) : Bool :=
  if r.closed then decide (r.low ≤ n) && decide (n ≤ r.high)
  else decide (r.low < n) && decide (n < r.high)

def magnitudeText (m : Nat) (e : Int) : String :=
  let r := reach m e
  positional (roundest r.holds r.value ((Nat.toDigits 10 r.value).length - 1)) r.places

def textWith (infinity : String) : Number → String
  | nan => "NaN"
  | infinite negative => if negative then "-" ++ infinity else infinity
  | finite negative m e =>
    let magnitude := if m = 0 then "0" else magnitudeText m e
    if negative then "-" ++ magnitude else magnitude

def text (x : Number) : String :=
  x.textWith "inf"

end Number

end TwoScript
