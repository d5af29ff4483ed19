import RecordLayout.Number.Binary64

/-!
# Decimal text of binary numbers

A number is written either with the fewest digits that identify it or with a fixed number of
decimal places.

## Main definitions

* `Binary64.shortest?` selects the digits: on the coarsest decimal grid that has a point which
  rounds to the number, the nearest such point;
* `Binary64.text` lays them out, positionally from `10 ^ -4` up to below `10 ^ 16` and with a signed
  exponent of at least two digits outside;
* `Binary64.fixed` writes the exact value rounded to a number of places, a tie to the even digit.
-/

namespace RecordLayout.Binary64

/-- The least `k` with `num / den < 10 ^ k`, searched upward from `k`. -/
def decimalScale (num den : Nat) : Nat → Int → Int
  | 0, k => k
  | fuel + 1, k =>
    if num * Nat.pow 10 (-k).toNat < den * Nat.pow 10 k.toNat then k
    else decimalScale num den fuel (k + 1)

/-- The points of the grid `10 ^ e` next to `num / den` that round to `x`, the nearer one if both
do; an exact tie goes to the even point. -/
def gridPoint? (x : Binary64) (num den : Nat) (e : Int) : Option Nat :=
  let n := num * Nat.pow 10 (-e).toNat
  let d := den * Nat.pow 10 e.toNat
  let below := n / d
  let above := below + 1
  let hit (p : Nat) : Bool := p != 0 && ofDecimal false p e == x
  match hit below, hit above with
  | true, true => some (Number.roundDiv n d)
  | true, false => some below
  | false, true => some above
  | false, false => none

/-- The first of the grids `10 ^ (k - 1)`, `10 ^ (k - 2)`, … that has a point which rounds to
`x`. -/
def shortestOn (x : Binary64) (num den : Nat) (k : Int) : Nat → Nat → Option (Nat × Int)
  | 0, _ => none
  | fuel + 1, n =>
    let e := k - n
    match gridPoint? x num den e with
    | some p => some (p, e)
    | none => shortestOn x num den k fuel (n + 1)

/-- The shortest decimal `digits * 10 ^ exponent` that rounds to a positive finite number;
seventeen digits always suffice. -/
def shortest? (significand : Nat) (exponent : Int) : Option (Nat × Int) :=
  let num := significand * Nat.pow 2 exponent.toNat
  let den := Nat.pow 2 (-exponent).toNat
  -- A little below the number of digits in front of the point: log₁₀ 2 is 0.30103.
  let start : Int := (floorLog2 num den) * 30103 / 100000 - 1
  let k := decimalScale num den 4 start
  shortestOn (.finite false significand exponent) num den k 18 1

/-- A decimal in positional notation, with at least one digit on either side of the point; the
first digit stands for `10 ^ (point - 1)`. -/
def positional (digits : List Char) (point : Int) : String :=
  let whole := digits.take point.toNat
  let zeros := List.replicate (point.toNat - digits.length) '0'
  let fraction := List.replicate (-point).toNat '0' ++ digits.drop point.toNat
  let whole := whole ++ zeros
  String.ofList ((if whole.isEmpty then ['0'] else whole) ++ '.' ::
    (if fraction.isEmpty then ['0'] else fraction))

/-- A decimal with an exponent; the first digit stands before the point. -/
def scientific (digits : List Char) (point : Int) : String :=
  let mantissa :=
    match digits with
    | [] => ['0']
    | [d] => [d]
    | d :: ds => d :: '.' :: ds
  let e := point - 1
  let size := Nat.toDigits 10 e.natAbs
  let size := if size.length < 2 then '0' :: size else size
  String.ofList (mantissa ++ 'e' :: (if e < 0 then '-' else '+') :: size)

/-- The text of a number: the fewest digits that identify it. -/
def text : Binary64 → String
  | .nan => "nan"
  | .infinity negative => if negative then "-inf" else "inf"
  | .finite negative 0 _ => if negative then "-0.0" else "0.0"
  | .finite negative s e =>
    let (digits, exponent) := (shortest? s e).getD (s * Nat.pow 2 e.toNat, 0)
    let all := Nat.toDigits 10 digits
    let point := (all.length : Int) + exponent
    let kept := (all.reverse.dropWhile (· = '0')).reverse
    let body := if -4 < point && point ≤ 16 then positional kept point else scientific kept point
    if negative then "-" ++ body else body

/-- The exact value rounded to `places` decimal places. -/
def fixed (places : Nat) : Binary64 → String
  | .finite negative s e =>
    let n :=
      Number.roundDiv (s * Nat.pow 2 e.toNat * Nat.pow 10 places) (Nat.pow 2 (-e).toNat)
    let digits := Nat.toDigits 10 n
    let digits := List.replicate (places + 1 - digits.length) '0' ++ digits
    let whole := digits.take (digits.length - places)
    let fraction := digits.drop (digits.length - places)
    let body := if places = 0 then whole else whole ++ '.' :: fraction
    String.ofList (if negative then '-' :: body else body)
  | x => x.text

end RecordLayout.Binary64
