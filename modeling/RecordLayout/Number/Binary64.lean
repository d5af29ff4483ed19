/-!
# Binary floating point

The numbers of the 64 bit binary format, held exactly: a finite one is a signed significand times a
power of two.  Every operation computes the exact result in natural numbers and rounds it once, to
the nearest representable number, a tie going to the even significand.

## Main definitions

* `Binary64` is the type of the format's numbers;
* `Number.roundDiv` is the rounded quotient of two natural numbers;
* `Binary64.nearest` is the number nearest to a quotient;
* `Binary64.ofDecimal` is the number nearest to a decimal;
* `Binary64.scale` multiplies by a natural number;
* `Binary64.toInt?` is the integer that a number equals.
-/

namespace RecordLayout

/-- The quotient `n / d` rounded to the nearest natural number, a tie to the even one. -/
def Number.roundDiv (n d : Nat) : Nat :=
  let q := n / d
  let r := n % d
  if 2 * r > d || (2 * r == d && q % 2 == 1) then q + 1 else q

/-- A number of the format.  In `finite negative s e` the value is `s * 2 ^ e` with that sign; the
significand has 53 bits, or fewer where the exponent is the least one. -/
inductive Binary64 where
  | nan
  | infinity (negative : Bool)
  | finite (negative : Bool) (significand : Nat) (exponent : Int)
  deriving DecidableEq, Repr, Inhabited

namespace Binary64

/-- The exponent of the numbers below the normal range. -/
def leastExponent : Int := -1074

/-- The exponent of the greatest finite numbers. -/
def greatestExponent : Int := 971

/-- The zero of a sign. -/
def zero (negative : Bool) : Binary64 := .finite negative 0 leastExponent

/-- The exponent of the greatest power of two that is at most `num / den`. -/
def floorLog2 (num den : Nat) : Int :=
  let e : Int := (num.log2 : Int) - den.log2
  -- The difference of the bit lengths is the logarithm or one more.
  if den * Nat.pow 2 e.toNat ≤ num * Nat.pow 2 (-e).toNat then e else e - 1

/-- The number nearest to `num / den`, for a positive `den`. -/
def nearest (negative : Bool) (num den : Nat) : Binary64 :=
  if num = 0 then zero negative
  else
    let e := max (floorLog2 num den - 52) leastExponent
    let s := Number.roundDiv (num * Nat.pow 2 (-e).toNat) (den * Nat.pow 2 e.toNat)
    -- Rounding up may need one bit more than there is; the last bit is then zero.
    let (s, e) := if s = Nat.pow 2 53 then (Nat.pow 2 52, e + 1) else (s, e)
    if greatestExponent < e then .infinity negative else .finite negative s e

/-- The number of decimal digits of a natural number. -/
def digitCount (n : Nat) : Nat := (Nat.toDigits 10 n).length

/-- The number nearest to `digits * 10 ^ exponent`.  The exponents that are out of range by far are
settled by the size of the decimal alone. -/
def ofDecimal (negative : Bool) (digits : Nat) (exponent : Int) : Binary64 :=
  if digits = 0 then zero negative
  else
    let magnitude := (digitCount digits : Int) + exponent
    if 400 < magnitude then .infinity negative
    else if magnitude < -400 then zero negative
    else nearest negative (digits * Nat.pow 10 exponent.toNat) (Nat.pow 10 (-exponent).toNat)

/-- The number nearest to a quotient of natural numbers. -/
def ofQuotient (num den : Nat) : Binary64 := nearest false num den

/-- A number times a natural number. -/
def scale (x : Binary64) (k : Nat) : Binary64 :=
  match x with
  | .finite negative s e =>
    nearest negative (s * k * Nat.pow 2 e.toNat) (Nat.pow 2 (-e).toNat)
  | x => x

/-- The integer that a number equals, if there is one. -/
def toInt? : Binary64 → Option Int
  | .finite negative s e =>
    let num := s * Nat.pow 2 e.toNat
    let den := Nat.pow 2 (-e).toNat
    if num % den = 0 then
      let n : Int := (num / den : Nat)
      some (if negative then -n else n)
    else none
  | _ => none

/-- Numeric equality: the two zeros are equal, and what is no number equals nothing. -/
def equals : Binary64 → Binary64 → Bool
  | .nan, _ => false
  | _, .nan => false
  | .finite _ 0 _, .finite _ 0 _ => true
  | x, y => x == y

/-- Zero and what is equal to it count as false. -/
def isZero : Binary64 → Bool
  | .finite _ 0 _ => true
  | _ => false

end Binary64

end RecordLayout
