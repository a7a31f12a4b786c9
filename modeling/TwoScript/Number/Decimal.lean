import TwoScript.Number.Rounding

/-!
# Reading numbers

Decimal digits are read as the nearest binary64 value. Source text holds digits with
an optional fraction; `Number.ofText?` also reads a sign, an exponent and the words
for values that are not finite.
-/

namespace TwoScript

def isDigit (c : Char) : Bool :=
  '0' ≤ c && c ≤ '9'

def digitsValue (digits : List Char) : Nat :=
  digits.foldl (fun n c => 10 * n + (c.toNat - '0'.toNat)) 0

namespace Number

/-- The value nearest to `digits * 10 ^ exponent`. Exponents far outside the range of
finite values are settled without computing the power. -/
def ofDecimal (negative : Bool) (digits : Nat) (exponent : Int) : Number :=
  if digits = 0 ∨ exponent + digits.log2 + 1 < -400 then finite negative 0 leastExponent
  else if 400 < exponent then infinite negative
  else ofRatio negative (digits * Nat.pow 10 exponent.toNat) (Nat.pow 10 (-exponent).toNat)

def ofDigits (whole fraction : List Char) : Number :=
  ofDecimal false (digitsValue (whole ++ fraction)) (-(fraction.length : Int))

/-- Splits a sign off the front of a text; `true` is a minus. -/
def splitSign : List Char → Bool × List Char
  | '-' :: cs => (true, cs)
  | '+' :: cs => (false, cs)
  | cs => (false, cs)

/-- The exponent that follows the digits of a number: nothing at all, or a letter `e`,
an optional sign and digits. -/
def exponent? : List Char → Option Int
  | [] => some 0
  | c :: cs =>
    let (negative, digits) := splitSign cs
    if (c == 'e' || c == 'E') && !digits.isEmpty && digits.all isDigit then
      some (if negative then -(digitsValue digits : Int) else digitsValue digits)
    else none

def ofText? (text : String) : Option Number :=
  let (negative, cs) := splitSign text.toList
  if cs = "NaN".toList then some nan
  else if cs = "inf".toList then some (infinite negative)
  else
    let whole := cs.takeWhile isDigit
    let rest := cs.dropWhile isDigit
    let (fraction, rest) :=
      match rest with
      | '.' :: rest => (rest.takeWhile isDigit, rest.dropWhile isDigit)
      | rest => ([], rest)
    if whole.isEmpty && fraction.isEmpty then none
    else
      (exponent? rest).map fun exponent =>
        ofDecimal negative (digitsValue (whole ++ fraction)) (exponent - fraction.length)

end Number

end TwoScript
