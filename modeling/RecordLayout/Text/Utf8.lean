import RecordLayout.Text.Numeral

/-!
# UTF-8

Reading octets as text.  Between two octets the reader owes some number of continuation octets, and
the next one is confined to a range that rules out overlong forms, surrogates and code points
beyond the last.  An octet that the range excludes ends the character that was begun, and is then
read again as a first octet.

## Main definitions

* `Text.Utf8.Pending` is a character that was begun;
* `Text.Utf8.decode` reads a whole sequence or says where and why it fails;
* `Text.Utf8.decodeLossy` puts the replacement character for each part that cannot be read;
* `Text.Utf8.Fault.message` is the wording of a failure;
* `Text.joinLines` turns the three kinds of line ends into one.
-/

namespace RecordLayout.Text

namespace Utf8

/-- A character that was begun: `owed` continuation octets follow, the next one between `low` and
`high`; `value` holds the bits read so far and `first` the octet it began with. -/
structure Pending where
  first : UInt8
  value : Nat
  owed : Nat
  low : Nat
  high : Nat

/-- What a first octet says: a whole character, a character begun, or nothing. -/
inductive Lead where
  | whole (c : Char)
  | begun (p : Pending)
  | refused

/-- The role of an octet that stands between two characters. -/
def lead (b : UInt8) : Lead :=
  let n := b.toNat
  if n < 0x80 then .whole (Char.ofNat n)
  else if 0xc2 ≤ n && n ≤ 0xdf then .begun ⟨b, n - 0xc0, 1, 0x80, 0xbf⟩
  else if n = 0xe0 then .begun ⟨b, 0, 2, 0xa0, 0xbf⟩
  else if n = 0xed then .begun ⟨b, 0xd, 2, 0x80, 0x9f⟩
  else if 0xe1 ≤ n && n ≤ 0xef then .begun ⟨b, n - 0xe0, 2, 0x80, 0xbf⟩
  else if n = 0xf0 then .begun ⟨b, 0, 3, 0x90, 0xbf⟩
  else if 0xf1 ≤ n && n ≤ 0xf3 then .begun ⟨b, n - 0xf0, 3, 0x80, 0xbf⟩
  else if n = 0xf4 then .begun ⟨b, 4, 3, 0x80, 0x8f⟩
  else .refused

/-- A further octet of a character: the character when it is complete, what is owed after it
otherwise, and nothing for an octet that does not continue it. -/
def Pending.continue? (p : Pending) (b : UInt8) : Option (Char ⊕ Pending) :=
  let n := b.toNat
  if p.low ≤ n && n ≤ p.high then
    let value := p.value * 64 + (n - 0x80)
    if p.owed ≤ 1 then some (.inl (Char.ofNat value))
    else some (.inr { p with value, owed := p.owed - 1, low := 0x80, high := 0xbf })
  else none

/-- Why a sequence of octets is no text. -/
inductive Reason where
  | firstOctet
  | continuationOctet
  | endOfInput
  deriving DecidableEq, Repr

/-- A failure: its reason, the place of the first octet concerned, that octet, and the number of
octets concerned. -/
structure Fault where
  reason : Reason
  position : Nat
  octet : UInt8
  count : Nat
  deriving DecidableEq, Repr

/-- The wording of a reason. -/
def Reason.message : Reason → String
  | .firstOctet => "invalid start byte"
  | .continuationOctet => "invalid continuation byte"
  | .endOfInput => "unexpected end of data"

/-- The wording of a failure. -/
def Fault.message (f : Fault) : String :=
  let place :=
    if f.count ≤ 1 then
      "byte 0x" ++ hexadecimalPadded 2 f.octet.toNat ++ " in position " ++ toString f.position
    else
      "bytes in position " ++ toString f.position ++ "-" ++ toString (f.position + f.count - 1)
  "'utf-8' codec can't decode " ++ place ++ ": " ++ f.reason.message

/-- One part of the reading: a character, or octets that cannot be read. -/
inductive Part where
  | char (c : Char)
  | fault (f : Fault)

/-- The parts of the octets, latest first.  `position` is the place of the next octet, and `begun`
counts the octets of the character under way. -/
def partsFrom (position : Nat) (begun : Option (Pending × Nat)) (done : List Part) :
    List UInt8 → List Part
  | [] =>
    match begun with
    | none => done
    | some (p, k) => .fault ⟨.endOfInput, position - k, p.first, k⟩ :: done
  | b :: bs =>
    let fresh (done : List Part) : Option (Pending × Nat) × List Part :=
      match lead b with
      | .whole c => (none, .char c :: done)
      | .begun p => (some (p, 1), done)
      | .refused => (none, .fault ⟨.firstOctet, position, b, 1⟩ :: done)
    let next :=
      match begun with
      | none => fresh done
      | some (p, k) =>
        match p.continue? b with
        | some (.inl c) => (none, .char c :: done)
        | some (.inr p) => (some (p, k + 1), done)
        -- The octet that does not continue the character may begin one of its own.
        | none => fresh (.fault ⟨.continuationOctet, position - k, p.first, k⟩ :: done)
    partsFrom (position + 1) next.1 next.2 bs

/-- The parts of the octets in order. -/
def parts (bs : List UInt8) : List Part :=
  (partsFrom 0 none [] bs).reverse

/-- The characters before the first failure, or that failure. -/
def collect : List Part → Except Fault (List Char)
  | [] => .ok []
  | .char c :: ps => (collect ps).map (c :: ·)
  | .fault f :: _ => .error f

/-- The text of the octets, or the first failure. -/
def decode (bs : List UInt8) : Except Fault String :=
  (collect (parts bs)).map String.ofList

/-- The text of the octets, with the replacement character for each part that cannot be read. -/
def decodeLossy (bs : List UInt8) : String :=
  String.ofList ((parts bs).map fun
    | .char c => c
    | .fault _ => Char.ofNat 0xfffd)

end Utf8

/-- The characters with each carriage return, alone or before a line feed, as one line feed. -/
def joinLines : List Char → List Char
  | [] => []
  | '\r' :: '\n' :: cs => '\n' :: joinLines cs
  | c :: cs => (if c = '\r' then '\n' else c) :: joinLines cs

end RecordLayout.Text
