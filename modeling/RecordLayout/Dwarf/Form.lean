import RecordLayout.Dwarf.Basic

/-!
# Forms of attributes

The form of an attribute says how its value is written.  A text may be written in place, at an
offset of a pool of texts, or as an index into a table of such offsets.

## Main definitions

* `Dwarf.Form` is a form, and `Dwarf.Form.ofCode?` the form of a code;
* `Dwarf.Stored` is a value as it is written;
* `Dwarf.Encoding` says how a unit writes its values;
* `Dwarf.Form.read` reads a value.
-/

namespace RecordLayout.Dwarf

/-- The two pools of texts. -/
inductive Pool where
  | texts
  | lineTexts
  deriving DecidableEq, Repr

/-- How a value is written.  A missing size stands for a number of variable length. -/
inductive Form where
  | address
  | unsigned (size : Option Nat)
  | signed
  | flag
  /-- A flag that is set by being there. -/
  | present
  /-- A block after its length, which is written in `size` octets. -/
  | block (size : Option Nat)
  /-- A block of a fixed length. -/
  | octets (count : Nat)
  | inlineText
  | textAt (pool : Pool)
  | textIndex (size : Option Nat)
  /-- An entry of the same unit, by the distance from the start of the unit. -/
  | unitReference (size : Option Nat)
  /-- An entry of any unit, by its offset. -/
  | reference
  /-- A value that stands in the abbreviation. -/
  | constant (value : Int)
  /-- A value after the code of its form. -/
  | indirect
  deriving DecidableEq, Repr, Inhabited

/-- The code of the form whose value stands in the abbreviation. -/
def constantCode : Nat := 0x21

/-- The form of a code; `constant` is the value that stands in the abbreviation. -/
def Form.ofCode? (code : Nat) (constant : Int) : Option Form :=
  match code with
  | 0x01 => some .address
  | 0x03 => some (.block (some 2))
  | 0x04 => some (.block (some 4))
  | 0x05 => some (.unsigned (some 2))
  | 0x06 => some (.unsigned (some 4))
  | 0x07 => some (.unsigned (some 8))
  | 0x08 => some .inlineText
  | 0x09 => some (.block none)
  | 0x0a => some (.block (some 1))
  | 0x0b => some (.unsigned (some 1))
  | 0x0c => some .flag
  | 0x0d => some .signed
  | 0x0e => some (.textAt .texts)
  | 0x0f => some (.unsigned none)
  | 0x10 => some .reference
  | 0x11 => some (.unitReference (some 1))
  | 0x12 => some (.unitReference (some 2))
  | 0x13 => some (.unitReference (some 4))
  | 0x14 => some (.unitReference (some 8))
  | 0x15 => some (.unitReference none)
  | 0x16 => some .indirect
  | 0x17 => some (.unsigned (some 4))
  | 0x18 => some (.block none)
  | 0x19 => some .present
  | 0x1a => some (.textIndex none)
  | 0x1b => some (.unsigned none)
  | 0x1c => some (.unsigned (some 4))
  | 0x1d => some (.unsigned (some 4))
  | 0x1e => some (.octets 16)
  | 0x1f => some (.textAt .lineTexts)
  | 0x20 => some (.unsigned (some 8))
  | 0x21 => some (.constant constant)
  | 0x22 => some (.unsigned none)
  | 0x23 => some (.unsigned none)
  | 0x24 => some (.unsigned (some 8))
  | 0x25 => some (.textIndex (some 1))
  | 0x26 => some (.textIndex (some 2))
  | 0x27 => some (.textIndex (some 3))
  | 0x28 => some (.textIndex (some 4))
  | 0x29 => some (.unsigned (some 1))
  | 0x2a => some (.unsigned (some 2))
  | 0x2b => some (.unsigned (some 3))
  | 0x2c => some (.unsigned (some 4))
  | 0x1f01 => some (.unsigned none)
  | 0x1f02 => some (.unsigned none)
  | 0x1f20 => some (.unsigned (some 4))
  | 0x1f21 => some (.unsigned (some 4))
  | _ => none

/-- A value as it is written. -/
inductive Stored where
  | value (v : Value)
  | textAt (pool : Pool) (offset : Nat)
  | textIndex (index : Nat)
  /-- A reference: the number that is written, and the offset of the entry. -/
  | reference (written offset : Nat)
  deriving DecidableEq, Repr, Inhabited

/-- The number of octets of an offset into a section. -/
def offsetSize : Nat := 4

/-- How a unit writes its values. -/
structure Encoding where
  order : ByteOrder
  /-- The offset of the unit. -/
  start : Nat
  version : Nat
  addressSize : Nat
  deriving Repr

namespace Encoding

/-- An unsigned number of a size. -/
def number (e : Encoding) : Option Nat → Octets.Reader Nat
  | some size => Octets.number e.order size
  | none => Octets.unsignedNumber

/-- The size of a reference to an entry of any unit. -/
def referenceSize (e : Encoding) : Nat := if e.version ≤ 2 then e.addressSize else offsetSize

end Encoding

/-- Reads a value of a form, where a form may be told in front of the value at most `depth`
times. -/
def Form.readTo (e : Encoding) : Nat → Form → Octets.Reader Stored
  | _, .address => return .value (.ofInt (← Octets.number e.order e.addressSize))
  | _, .unsigned size => return .value (.ofInt (← e.number size))
  | _, .signed => return .value (.ofInt (← Octets.signedNumber))
  | _, .flag => return .value (.number (.flag ((← Octets.number e.order 1) ≠ 0)))
  | _, .present => return .value (.number (.flag true))
  | _, .block size => return .value (.ofOctets (← Octets.take (← e.number size)))
  | _, .octets count => return .value (.ofOctets (← Octets.take count))
  | _, .inlineText => return .value (.bytes (← Octets.zeroEnded))
  | _, .textAt pool => return .textAt pool (← Octets.number e.order offsetSize)
  | _, .textIndex size => return .textIndex (← e.number size)
  | _, .unitReference size => do
    -- The distance itself is what the attribute shows; the offset is only followed.
    let written ← e.number size
    return .reference written (e.start + written)
  | _, .reference => do
    let written ← Octets.number e.order e.referenceSize
    return .reference written written
  | _, .constant n => return .value (.ofInt n)
  | 0, .indirect => failure
  | depth + 1, .indirect => do
    match Form.ofCode? (← Octets.unsignedNumber) 0 with
    | some form => form.readTo e depth
    | none => failure

/-- Reads a value of a form. -/
def Form.read (e : Encoding) (form : Form) : Octets.Reader Stored := do
  form.readTo e (← Octets.remaining)

end RecordLayout.Dwarf
