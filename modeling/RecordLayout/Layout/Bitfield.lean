import RecordLayout.Layout.Extent

/-!
# Bitfields

Where a bitfield goes.  In unit packing a field shares the open storage unit while it fits and the
types agree, or the profile lets them differ; otherwise the unit is closed and a new one is
allocated at the cursor.  In bits packing a field goes to the running bit position and skips ahead
only when it would straddle an aligned window of its base type.

A placement is reported against some storage: the whole unit in unit packing, the bytes that the
field touches in bits packing.  Its bit offset counts from the low bit of that storage.

## Main definitions

* `Bitfield.OpenUnit` is the storage that later fields may share;
* `Bitfield.place` places a field, `Bitfield.flush` closes the open unit;
* `Bitfield.attempt` places a field too, and says what a failed attempt leaves behind;
* `Bitfield.allocationBit` is the position of the first bit of a placed field in the order of
  declaration, whichever way units are filled.
-/

namespace RecordLayout.Bitfield

/-- The storage that the last bitfield left open. -/
structure OpenUnit where
  base : Primitive
  size : Int
  alignment : Int
  offset : Int
  bitsUsed : Int
  /-- Whether the size was written as a flag. -/
  sizeIsFlag : Bool := false
  deriving DecidableEq, Repr, Inhabited

/-- The bit after the last one used, counted from the start of the aggregate. -/
def OpenUnit.endBit (u : OpenUnit) : Int := u.offset * 8 + u.bitsUsed

/-- The place of a bitfield. -/
structure Placement where
  byteOffset : Int
  bitOffset : Int
  bitWidth : Int
  unitSize : Int
  alignment : Int
  paddingBefore : Int
  /-- Whether the size of the storage was written as a flag. -/
  sizeIsFlag : Bool := false
  deriving DecidableEq, Repr, Inhabited

/-- The position of the first bit of a field, counted from bit 0 of the aggregate in the order of
declaration. -/
def allocationBit (fill : FillDirection) (byteOffset storageSize bitOffset bitWidth : Int) : Int :=
  match fill with
  | .highToLow => byteOffset * 8 + storageSize * 8 - bitOffset - bitWidth
  | .lowToHigh => byteOffset * 8 + bitOffset

/-- A bitfield that is to be placed.  `extent` is that of its base type under the pack around it,
and `natural` the alignment of the base type without a pack. -/
structure Field where
  name : Option String
  base : Primitive
  extent : Extent
  natural : Int
  width : Json

/-- The name of a field in notes. -/
def Field.label (f : Field) : String := (nonemptyName? f.name).getD "<unnamed>"

/-- The state after the open unit is closed. -/
structure Flushed where
  cursor : Int
  notes : List String
  deriving DecidableEq, Repr

/-- The byte after an open unit: after all of its storage in unit packing, after the last byte that
is used in bits packing. -/
def OpenUnit.endByte (p : Profile) (u : OpenUnit) : Int :=
  match p.packing with
  | .bits => Number.roundUp u.endBit 8 / 8
  | .unit => u.offset + u.size

/-- Closes the open unit; the cursor moves past it. -/
def flush (p : Profile) (cursor : Int) : Option OpenUnit → Flushed
  | none => ⟨cursor, []⟩
  | some u =>
    let cursor := max cursor (u.endByte p)
    let used := s!"({u.bitsUsed} bits used)"
    ⟨cursor, [s!"flush {u.base.name} unit at {u.offset} {used}, cursor -> {cursor}"]⟩

/-- The state after a field is placed.  A field of width zero has no placement. -/
structure Placed where
  placement : Option Placement
  cursor : Int
  unit : Option OpenUnit
  notes : List String
  deriving DecidableEq, Repr

/-- The number of bits that a written width stands for. -/
def width? : Json → Option Int
  | .int n => if n < 0 then none else some n
  | _ => none

/-- The reported place of a field that starts `low` bits into storage of `unitSize` bytes, counted
in the order of filling. -/
def report (p : Profile) (unitOffset low width unitSize alignment padding : Int) : Placement where
  byteOffset := unitOffset
  bitOffset :=
    match p.fill with
    | .highToLow => unitSize * 8 - low - width
    | .lowToHigh => low
  bitWidth := width
  unitSize
  alignment
  paddingBefore := max 0 padding

/-- Whether the base type of a field has the size and alignment of the open unit. -/
def OpenUnit.matches (u : OpenUnit) (x : Extent) : Bool :=
  u.size == x.size && u.alignment == x.alignment

/-- Whether a field may share the open unit. -/
def OpenUnit.accepts (p : Profile) (u : OpenUnit) (x : Extent) : Bool :=
  u.matches x || p.unitReuse

/-- A width of zero closes the open unit and places nothing; in bits packing it also aligns the
cursor to the base type. -/
def placeZero (p : Profile) (f : Field) (cursor : Int) (unit : Option OpenUnit) : Placed :=
  let notes :=
    match unit with
    -- Without an open unit there is nothing to reset, so nothing to note.
    | none => []
    | some _ => [s!"zero-width {f.base.name} resets the open unit"]
  let flushed := flush p cursor unit
  let cursor :=
    match p.packing with
    | .bits => Number.roundUp flushed.cursor f.extent.alignment
    | .unit => flushed.cursor
  ⟨none, cursor, none, notes ++ flushed.notes⟩

/-- A new unit at the first aligned place from the cursor on. -/
def allocate (p : Profile) (f : Field) (width cursor : Int) (notes : List String) : Placed :=
  let x := f.extent
  let offset := Number.roundUp cursor x.alignment
  let placement := report p offset 0 width x.size x.alignment (offset - cursor)
  { placement := some { placement with sizeIsFlag := x.sizeIsFlag }
    cursor
    unit := some ⟨f.base, x.size, x.alignment, offset, width, x.sizeIsFlag⟩
    notes := notes ++ [s!"{f.label}: allocate {f.base.name} unit at {offset}, bits 0..{width}"] }

/-- The next bits of the open unit. -/
def share (p : Profile) (f : Field) (width cursor : Int) (u : OpenUnit) : Placed :=
  let low := u.bitsUsed
  let placement := report p u.offset low width u.size f.extent.alignment 0
  { placement := some { placement with sizeIsFlag := u.sizeIsFlag }
    cursor
    unit := some { u with bitsUsed := low + width }
    notes := [s!"{f.label}: reuse {u.base.name} unit at {u.offset}, bits {low}..{low + width}"] }

/-- Unit packing. -/
def placeInUnit (p : Profile) (f : Field) (width cursor : Int) : Option OpenUnit → Placed
  | none => allocate p f width cursor []
  | some u =>
    if u.accepts p f.extent && u.bitsUsed + width ≤ u.size * 8 then share p f width cursor u
    else
      let flushed := flush p cursor (some u)
      allocate p f width flushed.cursor flushed.notes

/-- The bit at which a field starts in bits packing, when the running bit position is `start`: the
next aligned window if the field would straddle one.  Fields whose alignment is capped may
straddle. -/
def startBit (x : Extent) (natural width start : Int) : Int :=
  let window := x.alignment * 8
  if natural ≤ x.alignment && x.size * 8 < start % window + width then Number.roundUp start window
  else start

/-- A field at the running bit position `running`.  The window can reach back over earlier plain
members, so the field is reported by the bytes that its bits occupy. -/
def placeAtBit (p : Profile) (f : Field) (width cursor running : Int) (notes : List String) :
    Placed :=
  let start := startBit f.extent f.natural width running
  let window := Number.roundDown start (f.extent.alignment * 8) / 8
  let byteOffset := start / 8
  let low := start % 8
  let span := Number.roundUp (low + width) 8 / 8
  -- Whole bytes between the end of the field before and this one are padding; skipped bits are not.
  let previousEnd := Number.roundUp running 8 / 8
  { placement :=
      some (report p byteOffset low width span f.extent.alignment (byteOffset - previousEnd))
    cursor
    -- The unit stays open over the whole window, of which the bits so far are used.
    unit := some
      ⟨f.base, f.extent.size, f.extent.alignment, window, start - window * 8 + width,
        f.extent.sizeIsFlag⟩
    notes := notes ++
      [s!"{f.label}: {f.base.name} window at {window}, bits {start}..{start + width}"] }

/-- Bits packing: the running bit position is the end of the open unit, or the cursor when there is
none. -/
def placeInBits (p : Profile) (f : Field) (width cursor : Int) : Option OpenUnit → Placed
  | none => placeAtBit p f width cursor (cursor * 8) []
  | some u =>
    if u.accepts p f.extent then placeAtBit p f width cursor u.endBit []
    else
      let flushed := flush p cursor (some u)
      placeAtBit p f width flushed.cursor (flushed.cursor * 8) flushed.notes

/-- Places a field whose width is known to fit its base type. -/
def placeWidth (p : Profile) (f : Field) (width cursor : Int) (unit : Option OpenUnit) : Placed :=
  if width = 0 then placeZero p f cursor unit
  else
    match p.packing with
    | .bits => placeInBits p f width cursor unit
    | .unit => placeInUnit p f width cursor unit

/-- The width of a field, which must be a natural number and fit the base type. -/
def Field.checkedWidth (f : Field) : Except Failure Int :=
  match width? f.width with
  | none => .error (.ofCause (.bitfieldWidth f.width))
  | some width =>
    let capacity := f.extent.size * 8
    if capacity < width then .error (.ofCause (.widthExceeds width capacity f.base.name))
    else .ok width

/-! ## Attempts -/

/-- Why a field is not placed, with the unit and the notes that the attempt leaves. -/
structure Refusal where
  failure : Failure
  unit : Option OpenUnit
  notes : List String

/-- Whether a field must not straddle windows that have no width: no position lies in one of
them. -/
def Field.hasEmptyWindow (f : Field) : Bool := f.extent.alignment == 0 && f.natural ≤ 0

/-- An attempt that finds the windows of the field empty.  By then a unit that the field cannot
share has been closed. -/
def refuseWindow (p : Profile) (f : Field) (cursor : Int) : Option OpenUnit → Refusal
  | none => ⟨.emptyWindow, none, []⟩
  | some u =>
    if u.accepts p f.extent then ⟨.emptyWindow, some u, []⟩
    else ⟨.emptyWindow, none, (flush p cursor (some u)).notes⟩

/-- Attempts to place a field. -/
def attempt (p : Profile) (f : Field) (cursor : Int) (unit : Option OpenUnit) :
    Except Refusal Placed :=
  match f.checkedWidth with
  | .error failure => .error ⟨failure, unit, []⟩
  | .ok width =>
    -- Only bits packing looks at windows, and a width of zero only closes the open unit.
    if p.packing = .bits && width != 0 && f.hasEmptyWindow then
      .error (refuseWindow p f cursor unit)
    else .ok (placeWidth p f width cursor unit)

/-- Places a field. -/
def place (p : Profile) (f : Field) (cursor : Int) (unit : Option OpenUnit) :
    Except Failure Placed :=
  (attempt p f cursor unit).mapError (·.failure)

end RecordLayout.Bitfield
