import RecordLayout.Proofs.Layout.Placement

/-!
# What a bitfield leaves free

The storage of a bitfield may begin before the byte at which the storage of all earlier members
ends, since it shares bytes with the bitfields before it.  All bytes that the two have in common are
taken: those from the start of the open unit on in unit packing, and those from the byte of the
running bit position on in bits packing (`takenFrom`).  So a bitfield leaves bytes free only between
the end of what is taken and its own storage, and these are the bytes that it reports as padding
(`Placed.Fills`).

## Main definitions

* `Bitfield.takenFrom` is the byte from which no byte is free;
* `Bitfield.Placed.Fills` says what a placement takes and what it leaves free.

## Main results

* `Bitfield.fills_of_place`: a placement reports the bytes that it leaves free.
-/

namespace RecordLayout.Bitfield

/-- The byte from which on all bytes up to the end of a flush are taken. -/
def takenFrom (p : Profile) (cursor : Int) (unit : Option OpenUnit) : Int :=
  match p.packing with
  | .bits => running cursor unit / 8
  | .unit => sharedFrom cursor unit

/-- What a placement takes: the storage that it reports, after which a flush would end.  What lies
before that storage is taken already or reported as padding. -/
structure Placed.Fills (p : Profile) (cursor : Int) (unit : Option OpenUnit) (placed : Placed)
    (place : Placement) : Prop where
  start : takenFrom p cursor unit ≤ place.byteOffset
  padding : place.paddingBefore = max 0 (place.byteOffset - (flush p cursor unit).cursor)
  stop : (flush p placed.cursor placed.unit).cursor = place.byteOffset + place.unitSize
  taken : place.byteOffset ≤ takenFrom p placed.cursor placed.unit

section Bits

variable {p : Profile} {f : Field} {width cursor cursor' start : Int} {unit : Option OpenUnit}

/-- A field at a bit position that is rounded up to the end of a flush. -/
theorem fills_placeAtBit {notes : List String} (hp : p.packing = .bits) (hw : 0 < width)
    (hstart : cursor' * 8 ≤ start) (hrun : running cursor unit ≤ start)
    (hflush : (flush p cursor unit).cursor = Number.roundUp start 8 / 8) :
    ∃ place, (placeAtBit p f width cursor' start notes).placement = some place ∧
      (placeAtBit p f width cursor' start notes).Fills p cursor unit place := by
  have hle := le_startBit f.extent f.natural width start
  refine ⟨_, rfl, ?_⟩
  constructor
  case start =>
    simp only [takenFrom, hp, report]
    omega
  case padding =>
    rw [hflush]
    rfl
  case stop =>
    have hbits : ∀ window start : Int, window * 8 + (start - window * 8 + width) = start + width :=
      fun _ _ => by omega
    simp only [placeAtBit, report, flush_cursor_bits hp, OpenUnit.endBit, hbits, Number.roundUp]
    omega
  case taken =>
    simp only [takenFrom, hp, placeAtBit, report, running, OpenUnit.endBit]
    omega

theorem fills_placeInBits (hp : p.packing = .bits) (hw : 0 < width)
    (hcons : Consistent p cursor unit) :
    ∃ place, (placeInBits p f width cursor unit).placement = some place ∧
      (placeInBits p f width cursor unit).Fills p cursor unit place := by
  cases unit with
  | none =>
    exact fills_placeAtBit hp hw (Int.le_refl _) (Int.le_refl _) (Number.byteCeil_mul cursor).symm
  | some u =>
    simp only [placeInBits]
    split
    · simp only [Consistent, hp] at hcons
      have hcursor := Number.byteCeil_mono hcons
      rw [Number.byteCeil_mul] at hcursor
      apply fills_placeAtBit hp hw hcons (Int.le_refl _)
      rw [flush_cursor_bits hp]
      exact Int.max_eq_right hcursor
    · apply fills_placeAtBit hp hw (Int.le_refl _) (running_le_flush hcons)
      exact (Number.byteCeil_mul _).symm

end Bits

section Unit

variable {p : Profile} {f : Field} {width cursor cursor' : Int} {unit : Option OpenUnit}

/-- Shared storage begins before the end of a flush. -/
theorem sharedFrom_le_flush (hp : p.packing = .unit) (hcons : Consistent p cursor unit) :
    sharedFrom cursor unit ≤ (flush p cursor unit).cursor := by
  cases unit with
  | none => exact Int.le_refl _
  | some u =>
    simp only [Consistent, hp] at hcons
    rw [flush_cursor_unit hp, sharedFrom]
    omega

/-- A new unit where a flush ends. -/
theorem fills_allocate {notes : List String} (hp : p.packing = .unit) (hw : 0 < width)
    (hfit : width ≤ f.extent.size * 8) (hcons : Consistent p cursor unit)
    (hflush : (flush p cursor unit).cursor = cursor') :
    ∃ place, (allocate p f width cursor' notes).placement = some place ∧
      (allocate p f width cursor' notes).Fills p cursor unit place := by
  subst hflush
  have hle := Number.le_roundUp (flush p cursor unit).cursor f.extent.alignment
  have hshared := sharedFrom_le_flush hp hcons
  refine ⟨_, rfl, ?_⟩
  constructor
  case start =>
    simp only [takenFrom, hp, report]
    omega
  case padding => rfl
  case stop =>
    simp only [allocate, report, flush_cursor_unit hp]
    omega
  case taken =>
    simp only [takenFrom, hp, allocate, report, sharedFrom]
    exact Int.le_refl _

/-- The next bits of the open unit, which leave nothing free. -/
theorem fills_share {u : OpenUnit} (hp : p.packing = .unit)
    (hcons : Consistent p cursor (some u)) :
    ∃ place, (share p f width cursor u).placement = some place ∧
      (share p f width cursor u).Fills p cursor (some u) place := by
  have hshared := sharedFrom_le_flush hp hcons
  rw [sharedFrom] at hshared
  simp only [Consistent, hp] at hcons
  refine ⟨_, rfl, ?_⟩
  constructor
  case start =>
    simp only [takenFrom, hp, report, sharedFrom]
    exact Int.le_refl _
  case padding =>
    simp only [report]
    omega
  case stop =>
    simp only [share, report, flush_cursor_unit hp]
    omega
  case taken =>
    simp only [takenFrom, hp, share, report, sharedFrom]
    exact Int.le_refl _

theorem fills_placeInUnit (hp : p.packing = .unit) (hw : 0 < width)
    (hfit : width ≤ f.extent.size * 8) (hcons : Consistent p cursor unit) :
    ∃ place, (placeInUnit p f width cursor unit).placement = some place ∧
      (placeInUnit p f width cursor unit).Fills p cursor unit place := by
  cases unit with
  | none => exact fills_allocate hp hw hfit hcons rfl
  | some u =>
    simp only [placeInUnit]
    split
    · exact fills_share hp hcons
    · exact fills_allocate hp hw hfit hcons rfl

end Unit

/-- **A placement reports the bytes that it leaves free**, and takes all bytes from its storage up
to the end of a flush. -/
theorem fills_of_place {p : Profile} {f : Field} {cursor : Int} {unit : Option OpenUnit}
    {placed : Placed} {place : Placement} (h : Bitfield.place p f cursor unit = .ok placed)
    (hplace : placed.placement = some place) (hcons : Consistent p cursor unit) :
    placed.Fills p cursor unit place := by
  obtain ⟨width, hwidth, rfl⟩ := place_eq_ok h
  obtain ⟨-, hnonneg, hfit⟩ := checkedWidth_eq_ok hwidth
  have hne := width_ne_zero_of_placement hplace
  have hw : 0 < width := by omega
  have hexists : ∃ q, (placeWidth p f width cursor unit).placement = some q ∧
      (placeWidth p f width cursor unit).Fills p cursor unit q := by
    simp only [placeWidth, hne, if_false]
    cases hp : p.packing with
    | bits => exact fills_placeInBits hp hw hcons
    | unit => exact fills_placeInUnit hp hw hfit hcons
  obtain ⟨q, hq, hfills⟩ := hexists
  obtain rfl : q = place := Option.some.inj (hq.symm.trans hplace)
  exact hfills

end RecordLayout.Bitfield
