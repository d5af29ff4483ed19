/-!
# Sequences of octets

Numbers, parts and texts in a sequence of octets, and readers that take them off its front.

## Main definitions

* `ByteOrder.number` is the number that octets write in an order;
* `Octets.part` is a part of a sequence, cut short where the sequence ends;
* `Octets.Reader` takes values off the front of a sequence;
* `Octets.unsignedNumber` and `Octets.signedNumber` read numbers that come seven bits at a time, the
  low ones first.
-/

namespace RecordLayout

/-- Which octet of a number comes first: the low one or the high one. -/
inductive ByteOrder where
  | little
  | big
  deriving DecidableEq, Repr, Inhabited

/-- The number that octets write. -/
def ByteOrder.number (order : ByteOrder) (bs : List UInt8) : Nat :=
  match order with
  | .little => bs.foldr (fun b n => b.toNat + 256 * n) 0
  | .big => bs.foldl (fun n b => 256 * n + b.toNat) 0

namespace Octets

/-- The octets from `start` on, at most `length` of them. -/
def part (start length : Nat) (bs : List UInt8) : List UInt8 := (bs.drop start).take length

/-- The octets before the first zero. -/
def beforeZero (bs : List UInt8) : List UInt8 := bs.takeWhile (· ≠ 0)

/-- The number that the low `bits` bits of `n` write in two's complement. -/
def twosComplement (bits n : Nat) : Int :=
  if Nat.pow 2 (bits - 1) ≤ n then (n : Int) - Nat.pow 2 bits else n

/-- The first `count` octets and what follows them. -/
def splitAt? : Nat → List UInt8 → Option (List UInt8 × List UInt8)
  | 0, bs => some ([], bs)
  | _ + 1, [] => none
  | count + 1, b :: bs => (splitAt? count bs).map fun (taken, rest) => (b :: taken, rest)

/-- An unsigned number, the number of its bits and what follows it.  An octet of 128 or more is
followed by another one. -/
def variableLength? : List UInt8 → Option (Nat × Nat × List UInt8)
  | [] => none
  | b :: bs =>
    if b.toNat < 128 then some (b.toNat, 7, bs)
    else (variableLength? bs).map fun (n, bits, rest) => (b.toNat - 128 + n * 128, bits + 7, rest)

/-- Takes a value off the front of a sequence. -/
abbrev Reader := StateT (List UInt8) Option

/-- How many octets are left. -/
def remaining : Reader Nat := return (← get).length

/-- The next `count` octets. -/
def take (count : Nat) : Reader (List UInt8) := fun bs => splitAt? count bs

/-- The next `size` octets as an unsigned number. -/
def number (order : ByteOrder) (size : Nat) : Reader Nat := return order.number (← take size)

/-- The next `size` octets as a signed number. -/
def signed (order : ByteOrder) (size : Nat) : Reader Int :=
  return twosComplement (8 * size) (← number order size)

/-- An unsigned number of variable length. -/
def unsignedNumber : Reader Nat := fun bs => (variableLength? bs).map fun (n, _, rest) => (n, rest)

/-- A signed number of variable length. -/
def signedNumber : Reader Int := fun bs =>
  (variableLength? bs).map fun (n, bits, rest) => (twosComplement bits n, rest)

/-- The octets before the next zero, which is taken too. -/
def zeroEnded : Reader (List UInt8) := fun bs =>
  match bs.dropWhile (· ≠ 0) with
  | [] => none
  | _ :: rest => some (beforeZero bs, rest)

/-- `count` values, one after another. -/
def repeated {α : Type} (reader : Reader α) : Nat → Reader (List α)
  | 0 => return []
  | count + 1 => return (← reader) :: (← repeated reader count)

end Octets

end RecordLayout
