import RecordLayout.Layout.Bitfield
import RecordLayout.Proofs.Number.Rounding
import RecordLayout.Proofs.Outcome

/-!
# What placing a bitfield does

The state of the allocator is a byte cursor and perhaps an open unit.  Two bounds describe it: the
bit from which the next bitfield may start (`running`) and the byte from which storage may still be
shared with earlier bitfields (`sharedFrom`).  A placement moves both forward, and what it reports
lies between the cursor and the byte at which a flush would end (`Placed.Advances`).

The invariant `Consistent` ties the open unit to the cursor.  In bits packing it says that the unit
ends at or after the cursor, in unit packing that the whole unit does and that its bits fit it.

## Main definitions

* `Bitfield.Consistent` is the invariant of the allocator;
* `Bitfield.running` and `Bitfield.sharedFrom` are its two bounds;
* `Bitfield.Placed.Advances` says what a placement does to them.

## Main results

* `Bitfield.allocationBit_report`: the position of a report in the order of declaration;
* `Bitfield.place_eq_ok`: what a successful placement computes;
* `Bitfield.advances_of_place`: it advances and keeps the invariant;
* `Bitfield.storage_of_place_zero`: at the start of a union it stays there.
-/

namespace RecordLayout.Bitfield

/-- The bit from which the next bitfield may start. -/
def running (cursor : Int) : Option OpenUnit → Int
  | none => cursor * 8
  | some u => u.endBit

/-- The byte from which storage may be shared with earlier bitfields. -/
def sharedFrom (cursor : Int) : Option OpenUnit → Int
  | none => cursor
  | some u => u.offset

/-- The open unit, if there is one, lies at or after the cursor. -/
def Consistent (p : Profile) (cursor : Int) : Option OpenUnit → Prop
  | none => True
  | some u =>
    match p.packing with
    | .bits => cursor * 8 ≤ u.endBit
    | .unit => cursor ≤ u.offset ∧ 0 ≤ u.bitsUsed ∧ u.bitsUsed ≤ u.size * 8

/-! ## Reports and flushes -/

/-- **A report keeps the position in the order of declaration**, whichever way storage is filled. -/
theorem allocationBit_report (p : Profile) (offset low width size alignment padding : Int) :
    allocationBit p.fill offset size (report p offset low width size alignment padding).bitOffset
      width = offset * 8 + low := by
  cases h : p.fill <;> simp only [allocationBit, report, h]
  omega

theorem bitOffset_report_bounds (p : Profile) (offset alignment padding : Int)
    {low width size : Int} (hlow : 0 ≤ low) (hwidth : low + width ≤ size * 8) :
    0 ≤ (report p offset low width size alignment padding).bitOffset ∧
      (report p offset low width size alignment padding).bitOffset + width ≤ 8 * size := by
  cases h : p.fill <;> simp only [report, h] <;> omega

theorem le_cursor_flush (p : Profile) (cursor : Int) (unit : Option OpenUnit) :
    cursor ≤ (flush p cursor unit).cursor := by
  cases unit with
  | none => exact Int.le_refl cursor
  | some u => exact Int.le_max_left cursor _

/-- No bit that is used lies beyond the end of a flush. -/
theorem running_le_flush {p : Profile} {cursor : Int} {unit : Option OpenUnit}
    (h : Consistent p cursor unit) : running cursor unit ≤ (flush p cursor unit).cursor * 8 := by
  cases unit with
  | none => exact Int.le_refl _
  | some u =>
    have hend : u.endBit ≤ u.endByte p * 8 := by
      cases hp : p.packing with
      | bits =>
        simp only [OpenUnit.endByte, hp]
        exact Number.le_byteCeil _
      | unit =>
        simp only [Consistent, hp] at h
        simp only [OpenUnit.endByte, OpenUnit.endBit, hp]
        omega
    have hmax : u.endByte p ≤ (flush p cursor (some u)).cursor := Int.le_max_right cursor _
    simp only [running]
    omega

/-! ## Placements -/

theorem checkedWidth_eq_ok {f : Field} {width : Int} (h : f.checkedWidth = .ok width) :
    f.width = .int width ∧ 0 ≤ width ∧ width ≤ f.extent.size * 8 := by
  unfold Field.checkedWidth at h
  cases hw : width? f.width with
  | none => simp [hw] at h
  | some w =>
    simp only [hw] at h
    split at h
    · cases h
    · cases h
      unfold width? at hw
      split at hw
      · rename_i n hn
        split at hw
        · cases hw
        · cases hw
          exact ⟨hn, by omega, by omega⟩
      · cases hw

/-- What a successful placement computes. -/
theorem place_eq_ok {p : Profile} {f : Field} {cursor : Int} {unit : Option OpenUnit}
    {placed : Placed} (h : place p f cursor unit = .ok placed) :
    ∃ width, f.checkedWidth = .ok width ∧ placed = placeWidth p f width cursor unit := by
  rw [place, Except.mapError_eq_ok] at h
  unfold attempt at h
  cases hw : f.checkedWidth with
  | error e => simp [hw] at h
  | ok width =>
    simp only [hw] at h
    split at h
    · cases h
    · exact ⟨width, rfl, (Except.ok.inj h).symm⟩

/-- What a placement does: `place` is reported at the position at which the running bit position or
a later one begins, in storage between the cursor and the end of a flush, and the unit that is left
open ends with the field. -/
structure Placed.Advances (p : Profile) (cursor : Int) (unit : Option OpenUnit) (placed : Placed)
    (place : Placement) : Prop where
  width_pos : 0 < place.bitWidth
  bits : 0 ≤ place.bitOffset ∧ place.bitOffset + place.bitWidth ≤ 8 * place.unitSize
  running_le : running cursor unit ≤
    allocationBit p.fill place.byteOffset place.unitSize place.bitOffset place.bitWidth
  running_eq : running placed.cursor placed.unit =
    allocationBit p.fill place.byteOffset place.unitSize place.bitOffset place.bitWidth +
      place.bitWidth
  cursor_le : cursor ≤ placed.cursor
  storage_start : placed.cursor ≤ place.byteOffset
  storage_end : place.byteOffset + place.unitSize ≤ (flush p placed.cursor placed.unit).cursor
  flush_le : (flush p cursor unit).cursor ≤ (flush p placed.cursor placed.unit).cursor
  consistent : Consistent p placed.cursor placed.unit
  /-- In unit packing the unit left open is the storage, and it is that of the unit that was open or
  lies after it. -/
  shared : p.packing = .unit → ∃ u, placed.unit = some u ∧ u.offset = place.byteOffset ∧
    u.size = place.unitSize ∧
    ((∃ v, unit = some v ∧ v.offset = u.offset ∧ v.size = u.size) ∨
      (flush p cursor unit).cursor ≤ place.byteOffset)

/-- The report of a field that starts `low` bits into storage of `size` bytes at `offset`. -/
theorem Placed.Advances.of_report {p : Profile} {cursor : Int} {unit : Option OpenUnit}
    {placed : Placed} {offset low width size alignment padding : Int} {flag : Bool}
    (hwidth : 0 < width) (hlow : 0 ≤ low) (hfit : low + width ≤ size * 8)
    (hrun : running cursor unit ≤ offset * 8 + low)
    (hrun' : running placed.cursor placed.unit = offset * 8 + low + width)
    (hcursor : cursor ≤ placed.cursor) (hstart : placed.cursor ≤ offset)
    (hend : offset + size ≤ (flush p placed.cursor placed.unit).cursor)
    (hflush : (flush p cursor unit).cursor ≤ (flush p placed.cursor placed.unit).cursor)
    (hcons : Consistent p placed.cursor placed.unit)
    (hshared : p.packing = .unit → ∃ u, placed.unit = some u ∧ u.offset = offset ∧ u.size = size ∧
      ((∃ v, unit = some v ∧ v.offset = u.offset ∧ v.size = u.size) ∨
        (flush p cursor unit).cursor ≤ offset)) :
    placed.Advances p cursor unit
      { report p offset low width size alignment padding with sizeIsFlag := flag } where
  width_pos := hwidth
  bits := bitOffset_report_bounds p offset alignment padding hlow hfit
  running_le := (allocationBit_report p offset low width size alignment padding).symm ▸ hrun
  running_eq := (allocationBit_report p offset low width size alignment padding).symm ▸ hrun'
  cursor_le := hcursor
  storage_start := hstart
  storage_end := hend
  flush_le := hflush
  consistent := hcons
  shared := hshared

/-! ### Bits packing -/

theorem le_startBit (x : Extent) (natural width start : Int) :
    start ≤ startBit x natural width start := by
  simp only [startBit]
  split
  · exact Number.le_roundUp _ _
  · exact Int.le_refl _

/-- **A field starts at the least bit** from the running position on at which it fits a window, if
it must fit one. -/
theorem startBit_le_of_fits {x : Extent} {natural width start bit : Int} (h : start ≤ bit)
    (hfits : natural ≤ x.alignment → bit % (x.alignment * 8) + width ≤ x.size * 8) :
    startBit x natural width start ≤ bit := by
  unfold startBit
  dsimp only
  split
  · rename_i hskip
    rw [Bool.and_eq_true, decide_eq_true_eq, decide_eq_true_eq] at hskip
    have hfit := hfits hskip.1
    by_cases hw : x.alignment * 8 ≤ 1
    · rw [Number.roundUp_of_le_one start hw]
      exact h
    · have hpos : 0 < x.alignment * 8 := by omega
      have hwindow : start / (x.alignment * 8) < bit / (x.alignment * 8) := by
        refine Int.lt_of_not_ge fun hle => ?_
        have hsame : bit / (x.alignment * 8) = start / (x.alignment * 8) :=
          Int.le_antisymm hle (Int.ediv_le_ediv hpos h)
        have hbit := Int.mul_ediv_add_emod bit (x.alignment * 8)
        have hstart := Int.mul_ediv_add_emod start (x.alignment * 8)
        rw [hsame] at hbit
        omega
      refine Int.le_trans (Number.roundUp_le_of_dvd ?_ (Int.dvd_mul_right _ _))
        (Int.mul_ediv_self_le (by omega))
      have hmul : x.alignment * 8 * (start / (x.alignment * 8) + 1) ≤
          x.alignment * 8 * (bit / (x.alignment * 8)) :=
        Int.mul_le_mul_of_nonneg_left hwindow (Int.le_of_lt hpos)
      have hlt := Int.lt_mul_ediv_self_add hpos (x := start)
      rw [Int.mul_add, Int.mul_one] at hmul
      omega
  · exact h

/-- A field that must fit a window does so where it starts. -/
theorem startBit_fits {x : Extent} {natural width start : Int} (hpos : 0 < x.alignment)
    (hwidth : width ≤ x.size * 8) (hnatural : natural ≤ x.alignment) :
    startBit x natural width start % (x.alignment * 8) + width ≤ x.size * 8 := by
  unfold startBit
  dsimp only
  split
  · have hdvd := Number.dvd_roundUp start (show 0 < x.alignment * 8 by omega)
    rw [Int.emod_eq_zero_of_dvd hdvd, Int.zero_add]
    exact hwidth
  · rename_i hskip
    rw [Bool.and_eq_true, decide_eq_true_eq, decide_eq_true_eq] at hskip
    omega

theorem flush_cursor_bits {p : Profile} (hp : p.packing = .bits) {cursor : Int} {u : OpenUnit} :
    (flush p cursor (some u)).cursor = max cursor (Number.roundUp u.endBit 8 / 8) := by
  simp only [flush, OpenUnit.endByte, hp]

/-- A flush ends in the byte that the running bit position has reached. -/
theorem flush_le_of_running {p : Profile} (hp : p.packing = .bits) {cursor bit : Int}
    {unit : Option OpenUnit} (hcons : Consistent p cursor unit) (h : running cursor unit ≤ bit) :
    (flush p cursor unit).cursor ≤ Number.roundUp bit 8 / 8 := by
  have hbyte := Number.byteCeil_mono h
  cases unit with
  | none =>
    simp only [running, Number.byteCeil_mul] at hbyte
    exact hbyte
  | some u =>
    simp only [Consistent, hp] at hcons
    have hcur := Number.byteCeil_mono hcons
    rw [Number.byteCeil_mul] at hcur
    rw [flush_cursor_bits hp]
    exact Int.max_le.mpr ⟨Int.le_trans hcur hbyte, hbyte⟩

/-- A field at a running bit position that is not before the cursor nor before what is used. -/
theorem advances_placeAtBit {p : Profile} {f : Field} {width cursor cursor' start : Int}
    {unit : Option OpenUnit} {notes : List String} (hp : p.packing = .bits) (hw : 0 < width)
    (hc : cursor ≤ cursor') (hstart : cursor' * 8 ≤ start) (hrun : running cursor unit ≤ start)
    (hcons : Consistent p cursor unit) :
    ∃ place, (placeAtBit p f width cursor' start notes).placement = some place ∧
      (placeAtBit p f width cursor' start notes).Advances p cursor unit place := by
  have hle := le_startBit f.extent f.natural width start
  have hflush := flush_le_of_running hp hcons
    (Int.le_trans hrun (Int.le_trans hle (Int.le_add_of_nonneg_right (Int.le_of_lt hw))))
  have hend : (flush p (placeAtBit p f width cursor' start notes).cursor
      (placeAtBit p f width cursor' start notes).unit).cursor =
        max cursor' (Number.roundUp (startBit f.extent f.natural width start + width) 8 / 8) := by
    have hbits : ∀ window start : Int, window * 8 + (start - window * 8 + width) = start + width :=
      fun _ _ => by omega
    simp only [placeAtBit, flush_cursor_bits hp, OpenUnit.endBit, hbits]
  refine ⟨_, rfl, ?_⟩
  refine Placed.Advances.of_report hw ?low ?fit ?run ?run' hc ?start ?storage ?flush ?consistent
    ?shared
  case low => omega
  case fit =>
    simp only [Number.roundUp]
    omega
  case run => omega
  case run' =>
    simp only [placeAtBit, running, OpenUnit.endBit]
    omega
  case start =>
    simp only [placeAtBit]
    omega
  case storage =>
    rw [hend]
    refine Int.le_trans ?_ (Int.le_max_right _ _)
    simp only [Number.roundUp]
    omega
  case flush =>
    rw [hend]
    exact Int.le_trans hflush (Int.le_max_right _ _)
  case consistent =>
    simp only [placeAtBit, Consistent, hp, OpenUnit.endBit]
    omega
  case shared =>
    intro h
    rw [hp] at h
    cases h

theorem advances_placeInBits {p : Profile} {f : Field} {width cursor : Int}
    {unit : Option OpenUnit} (hp : p.packing = .bits) (hw : 0 < width)
    (hcons : Consistent p cursor unit) :
    ∃ place, (placeInBits p f width cursor unit).placement = some place ∧
      (placeInBits p f width cursor unit).Advances p cursor unit place := by
  cases unit with
  | none =>
    exact advances_placeAtBit hp hw (Int.le_refl _) (Int.le_refl _) (Int.le_refl _) hcons
  | some u =>
    simp only [placeInBits]
    split
    -- A base type that the unit accepts goes on at its end, any other one at the next byte.
    · have h := hcons
      simp only [Consistent, hp] at h
      exact advances_placeAtBit hp hw (Int.le_refl _) h (Int.le_refl _) hcons
    · exact advances_placeAtBit hp hw (le_cursor_flush _ _ _) (Int.le_refl _)
        (running_le_flush hcons) hcons

/-! ### Unit packing -/

theorem flush_cursor_unit {p : Profile} (hp : p.packing = .unit) {cursor : Int} {u : OpenUnit} :
    (flush p cursor (some u)).cursor = max cursor (u.offset + u.size) := by
  simp only [flush, OpenUnit.endByte, hp]

/-- A new unit at a cursor at or after the end of a flush. -/
theorem advances_allocate {p : Profile} {f : Field} {width cursor cursor' : Int}
    {unit : Option OpenUnit} {notes : List String} (hp : p.packing = .unit) (hw : 0 < width)
    (hfit : width ≤ f.extent.size * 8) (hc : (flush p cursor unit).cursor ≤ cursor')
    (hcons : Consistent p cursor unit) :
    ∃ place, (allocate p f width cursor' notes).placement = some place ∧
      (allocate p f width cursor' notes).Advances p cursor unit place := by
  have hle := Number.le_roundUp cursor' f.extent.alignment
  have hrun := running_le_flush hcons
  have hcur := le_cursor_flush p cursor unit
  have hend : (flush p (allocate p f width cursor' notes).cursor
      (allocate p f width cursor' notes).unit).cursor =
        max cursor' (Number.roundUp cursor' f.extent.alignment + f.extent.size) :=
    flush_cursor_unit hp
  refine ⟨_, rfl, ?_⟩
  refine Placed.Advances.of_report hw (Int.le_refl 0) ?fit ?run ?run' ?cursor hle ?storage ?flush
    ?consistent ?shared
  case fit => omega
  case run => omega
  case run' =>
    simp only [allocate, running, OpenUnit.endBit]
    omega
  case cursor =>
    simp only [allocate]
    omega
  case storage =>
    rw [hend]
    exact Int.le_max_right _ _
  case flush =>
    rw [hend]
    exact Int.le_trans hc (Int.le_max_left _ _)
  case consistent =>
    simp only [allocate, Consistent, hp]
    exact ⟨hle, Int.le_of_lt hw, hfit⟩
  case shared =>
    -- The unit is a new one, so it lies after all that a flush would end.
    intro _
    exact ⟨_, rfl, rfl, rfl, .inr (Int.le_trans hc hle)⟩

/-- The next bits of the open unit, which has room for them. -/
theorem advances_share {p : Profile} {f : Field} {width cursor : Int} {u : OpenUnit}
    (hp : p.packing = .unit) (hw : 0 < width) (hfit : u.bitsUsed + width ≤ u.size * 8)
    (hcons : Consistent p cursor (some u)) :
    ∃ place, (share p f width cursor u).placement = some place ∧
      (share p f width cursor u).Advances p cursor (some u) place := by
  simp only [Consistent, hp] at hcons
  have hend : (flush p (share p f width cursor u).cursor (share p f width cursor u).unit).cursor =
      (flush p cursor (some u)).cursor := by
    simp only [share, flush_cursor_unit hp]
  refine ⟨_, rfl, ?_⟩
  refine Placed.Advances.of_report hw hcons.2.1 hfit ?run ?run' (Int.le_refl _) hcons.1 ?storage
    (Int.le_of_eq hend.symm) ?consistent ?shared
  case run =>
    simp only [running, OpenUnit.endBit]
    omega
  case run' =>
    simp only [share, running, OpenUnit.endBit]
    omega
  case storage =>
    rw [hend, flush_cursor_unit hp]
    exact Int.le_max_right _ _
  case consistent =>
    simp only [share, Consistent, hp]
    exact ⟨hcons.1, by omega, hfit⟩
  case shared =>
    intro _
    exact ⟨_, rfl, rfl, rfl, .inl ⟨u, rfl, rfl, rfl⟩⟩

theorem advances_placeInUnit {p : Profile} {f : Field} {width cursor : Int}
    {unit : Option OpenUnit} (hp : p.packing = .unit) (hw : 0 < width)
    (hfit : width ≤ f.extent.size * 8) (hcons : Consistent p cursor unit) :
    ∃ place, (placeInUnit p f width cursor unit).placement = some place ∧
      (placeInUnit p f width cursor unit).Advances p cursor unit place := by
  cases unit with
  | none => exact advances_allocate hp hw hfit (Int.le_refl _) hcons
  | some u =>
    simp only [placeInUnit]
    split
    · rename_i h
      rw [Bool.and_eq_true, decide_eq_true_eq] at h
      exact advances_share hp hw h.2 hcons
    · exact advances_allocate hp hw hfit (Int.le_refl _) hcons

/-! ### All placements -/

theorem width_ne_zero_of_placement {p : Profile} {f : Field} {width cursor : Int}
    {unit : Option OpenUnit} {place : Placement}
    (h : (placeWidth p f width cursor unit).placement = some place) : width ≠ 0 := by
  rintro rfl
  simp [placeWidth, placeZero] at h

/-- **A placement advances**: it lies after all that was placed, and a flush after it ends after the
field. -/
theorem advances_of_place {p : Profile} {f : Field} {cursor : Int} {unit : Option OpenUnit}
    {placed : Placed} {place : Placement} (h : Bitfield.place p f cursor unit = .ok placed)
    (hplace : placed.placement = some place) (hcons : Consistent p cursor unit) :
    placed.Advances p cursor unit place := by
  obtain ⟨width, hwidth, rfl⟩ := place_eq_ok h
  obtain ⟨-, hnonneg, hfit⟩ := checkedWidth_eq_ok hwidth
  have hne := width_ne_zero_of_placement hplace
  have hw : 0 < width := by omega
  have hexists : ∃ q, (placeWidth p f width cursor unit).placement = some q ∧
      (placeWidth p f width cursor unit).Advances p cursor unit q := by
    simp only [placeWidth, hne, if_false]
    cases hp : p.packing with
    | bits => exact advances_placeInBits hp hw hcons
    | unit => exact advances_placeInUnit hp hw hfit hcons
  obtain ⟨q, hq, hadv⟩ := hexists
  obtain rfl : q = place := Option.some.inj (hq.symm.trans hplace)
  exact hadv

/-- A field has no placement exactly when its width is zero. -/
theorem placement_eq_none_iff {p : Profile} {f : Field} {cursor : Int} {unit : Option OpenUnit}
    {placed : Placed} (h : Bitfield.place p f cursor unit = .ok placed) :
    ∃ width, f.width = .int width ∧ (placed.placement = none ↔ width = 0) := by
  obtain ⟨width, hwidth, rfl⟩ := place_eq_ok h
  refine ⟨width, (checkedWidth_eq_ok hwidth).1, fun hnone => ?_, ?_⟩
  · refine Decidable.byContradiction fun hw => ?_
    simp only [placeWidth, hw, if_false] at hnone
    cases hp : p.packing <;> cases unit <;>
      simp only [hp, placeInBits, placeInUnit, placeAtBit, allocate, share] at hnone
    all_goals first | cases hnone | (split at hnone <;> cases hnone)
  · rintro rfl
    rfl

/-- A width of zero closes the open unit. -/
theorem unit_of_placement_eq_none {p : Profile} {f : Field} {cursor : Int} {unit : Option OpenUnit}
    {placed : Placed} (h : Bitfield.place p f cursor unit = .ok placed)
    (hplace : placed.placement = none) :
    placed.unit = none ∧ (flush p cursor unit).cursor ≤ placed.cursor := by
  obtain ⟨width, hwidth, rfl⟩ := place_eq_ok h
  obtain ⟨w, hw, hiff⟩ := placement_eq_none_iff h
  have hww : Json.int width = .int w := (checkedWidth_eq_ok hwidth).1.symm.trans hw
  obtain rfl : width = 0 := (Json.int.inj hww).trans (hiff.mp hplace)
  refine ⟨rfl, ?_⟩
  simp only [placeWidth, placeZero, if_true]
  cases p.packing with
  | bits => exact Number.le_roundUp _ _
  | unit => exact Int.le_refl _

/-- A placement keeps the invariant of the allocator. -/
theorem consistent_of_place {p : Profile} {f : Field} {cursor : Int} {unit : Option OpenUnit}
    {placed : Placed} (h : Bitfield.place p f cursor unit = .ok placed)
    (hcons : Consistent p cursor unit) : Consistent p placed.cursor placed.unit := by
  cases hplace : placed.placement with
  | none =>
    rw [(unit_of_placement_eq_none h hplace).1]
    trivial
  | some place => exact (advances_of_place h hplace hcons).consistent

/-- A bitfield is reported with the alignment of its base type under the cap. -/
theorem alignment_of_place {p : Profile} {f : Field} {cursor : Int} {unit : Option OpenUnit}
    {placed : Placed} {place : Placement} (h : Bitfield.place p f cursor unit = .ok placed)
    (hplace : placed.placement = some place) : place.alignment = f.extent.alignment := by
  obtain ⟨width, -, rfl⟩ := place_eq_ok h
  have hne := width_ne_zero_of_placement hplace
  simp only [placeWidth, hne, if_false] at hplace
  cases hp : p.packing <;> cases unit <;>
    simp only [hp, placeInBits, placeInUnit, placeAtBit, allocate, share] at hplace
  all_goals first | (cases hplace; rfl) | (split at hplace <;> cases hplace <;> rfl)

theorem accepts_of_unitReuse {p : Profile} (hreuse : p.unitReuse = true) (u : OpenUnit)
    (x : Extent) : u.accepts p x = true := by
  unfold OpenUnit.accepts
  rw [hreuse, Bool.or_true]

/-- Where base types share units, bits packing starts a field from the running bit position on. -/
theorem start_of_place {p : Profile} {f : Field} {cursor : Int} {unit : Option OpenUnit}
    {placed : Placed} {place : Placement} (hp : p.packing = .bits) (hreuse : p.unitReuse = true)
    (h : Bitfield.place p f cursor unit = .ok placed) (hplace : placed.placement = some place) :
    f.checkedWidth = .ok place.bitWidth ∧
      allocationBit p.fill place.byteOffset place.unitSize place.bitOffset place.bitWidth =
        startBit f.extent f.natural place.bitWidth (running cursor unit) := by
  obtain ⟨width, hwidth, rfl⟩ := place_eq_ok h
  have hne := width_ne_zero_of_placement hplace
  -- The unit accepts every base type, so a flush never comes between two fields.
  have hrunning : ∃ cursor' notes, placeWidth p f width cursor unit =
      placeAtBit p f width cursor' (running cursor unit) notes := by
    simp only [placeWidth, hne, if_false, hp]
    cases unit with
    | none => exact ⟨_, _, rfl⟩
    | some u =>
      simp only [placeInBits, accepts_of_unitReuse hreuse, if_true]
      exact ⟨_, _, rfl⟩
  obtain ⟨cursor', notes, heq⟩ := hrunning
  rw [heq] at hplace
  cases hplace
  refine ⟨hwidth, (allocationBit_report p _ _ _ _ f.extent.alignment _).trans ?_⟩
  exact Int.ediv_mul_add_emod _ 8

theorem startBit_zero (x : Extent) (natural width : Int) : startBit x natural width 0 = 0 := by
  unfold startBit
  dsimp only
  split
  · exact Number.roundUp_zero _
  · rfl

/-- A bitfield at the start of a union stays there, and its storage does not depend on where it
could straddle. -/
theorem storage_of_place_zero {p : Profile} {f : Field} {placed : Placed} {place : Placement}
    (h : Bitfield.place p f 0 none = .ok placed) (hplace : placed.placement = some place) :
    place.byteOffset = 0 ∧
      place.unitSize =
        match p.packing with
        | .bits => Number.roundUp place.bitWidth 8 / 8
        | .unit => f.extent.size := by
  obtain ⟨width, -, rfl⟩ := place_eq_ok h
  have hne := width_ne_zero_of_placement hplace
  simp only [placeWidth, hne, if_false] at hplace
  cases hp : p.packing with
  | unit =>
    simp only [hp, placeInUnit, allocate, Option.some.injEq] at hplace
    rw [← hplace]
    exact ⟨Number.roundUp_zero _, rfl⟩
  | bits =>
    simp only [hp, placeInBits, placeAtBit, Option.some.injEq, Int.zero_mul, startBit_zero]
      at hplace
    rw [← hplace]
    simp [report]

end RecordLayout.Bitfield
