import RecordLayout.Proofs.Layout.Placement

/-!
# Bitfields of one base type

When all bitfields have one base type, as aligned as it is large, the allocator does no more than
count bits, and it counts the same bits in both packings.  A field goes to the bit that is reached,
unless it would straddle two units of the base type, and a width of zero moves on to the next unit.

In unit packing the bits are those of the open unit, which starts at a multiple of its size.  In bits
packing they are the running bit position.  The two differ in what is flushed: a unit is flushed to
its end, a bit position to the end of its byte, and both lie between the bit that is reached and the
end of its unit.  A full unit is not flushed before the next field in bits packing, but there the
flush changes nothing.

## Main definitions

* `Bitfield.bitAfter` is the bit that is reached after a field;
* `Bitfield.Represents` says which bit a state of the allocator has reached.

## Main results

* `Bitfield.Represents.flush_bounds`: where a flush ends;
* `Bitfield.Represents.placeWidth`: placing a field counts its bits, in either packing.
-/

namespace RecordLayout.Bitfield

/-- The bit that is reached after a field of a width, when `bit` was reached before. -/
def bitAfter (x : Extent) (bit width : Int) : Int :=
  if width = 0 then Number.roundUp bit (8 * x.size) else startBit x x.alignment width bit + width

/-- The allocator has reached a bit, and only fields of the extent `x` have been placed.  In unit
packing the storage that may be shared starts at a multiple of the size, and an open unit has bits
in it. -/
structure Represents (p : Profile) (x : Extent) (bit cursor : Int) (unit : Option OpenUnit) :
    Prop where
  running_eq : running cursor unit = bit
  consistent : Consistent p cursor unit
  same : ∀ u, unit = some u → u.size = x.size ∧ u.alignment = x.alignment
  whole : p.packing = .unit → x.size ∣ sharedFrom cursor unit
  used : p.packing = .unit → ∀ u, unit = some u → 0 < u.bitsUsed

/-- A placement starts at a bit and has a width and the alignment of its base type. -/
structure Placement.IsAt (p : Profile) (x : Extent) (start width : Int) (place : Placement) :
    Prop where
  start : allocationBit p.fill place.byteOffset place.unitSize place.bitOffset place.bitWidth =
    start
  width : place.bitWidth = width
  alignment : place.alignment = x.alignment

section

variable {p : Profile} {x : Extent} {f : Field} {bit cursor width : Int} {unit : Option OpenUnit}

/-- The start of an aggregate. -/
theorem represents_start (p : Profile) (x : Extent) : Represents p x 0 0 none where
  running_eq := rfl
  consistent := trivial
  same := nofun
  whole _ := Int.dvd_zero x.size
  used _ := nofun

theorem accepts_of_same {u : OpenUnit} (h : u.size = x.size ∧ u.alignment = x.alignment) :
    u.accepts p x = true := by
  unfold OpenUnit.accepts OpenUnit.matches
  rw [h.1, h.2, beq_self_eq_true, beq_self_eq_true]
  rfl

/-- The next multiple of the size, in bytes. -/
theorem exists_roundUp_eq (hpos : 0 < x.size) (bit : Int) :
    ∃ k, Number.roundUp bit (8 * x.size) = x.size * k * 8 := by
  obtain ⟨k, hk⟩ := Number.dvd_roundUp bit (show 0 < 8 * x.size by omega)
  refine ⟨k, ?_⟩
  rw [hk, Int.mul_assoc, Int.mul_comm 8]

/-- In unit packing a flush ends at a multiple of the size. -/
theorem Represents.dvd_flush (h : Represents p x bit cursor unit) (hp : p.packing = .unit) :
    x.size ∣ (flush p cursor unit).cursor := by
  have hwhole := h.whole hp
  have hcons := h.consistent
  cases unit with
  | none => exact hwhole
  | some u =>
    simp only [Consistent, hp] at hcons
    have hend : max cursor (u.offset + u.size) = u.offset + u.size := by omega
    rw [flush_cursor_unit hp, hend, (h.same u rfl).1]
    exact Int.dvd_add hwhole (Int.dvd_refl x.size)

/-- **A flush ends between the bit that is reached and the end of its unit.** -/
theorem Represents.flush_bounds (h : Represents p x bit cursor unit) (hpos : 0 < x.size) :
    bit ≤ (flush p cursor unit).cursor * 8 ∧
      (flush p cursor unit).cursor * 8 ≤ Number.roundUp bit (8 * x.size) := by
  have hrunning := running_le_flush h.consistent
  rw [h.running_eq] at hrunning
  refine ⟨hrunning, ?_⟩
  have hround := Number.le_roundUp bit (8 * x.size)
  obtain ⟨k, hk⟩ := exists_roundUp_eq hpos bit
  rw [hk] at hround ⊢
  cases hp : p.packing with
  | bits =>
    have hflush := flush_le_of_running hp h.consistent (Int.le_of_eq h.running_eq)
    have hbyte := Number.byteCeil_le hround
    omega
  | unit =>
    have hcons := h.consistent
    have hrun := h.running_eq
    cases unit with
    | none =>
      simp only [running] at hrun
      simp only [flush]
      omega
    | some u =>
      obtain ⟨j, hj⟩ := h.whole hp
      have hused := h.used hp u rfl
      simp only [Consistent, hp] at hcons
      simp only [sharedFrom] at hj
      simp only [running, OpenUnit.endBit] at hrun
      have hlt : x.size * j < x.size * k := by omega
      have hle : x.size * (j + 1) ≤ x.size * k :=
        Int.mul_le_mul_of_nonneg_left (Int.lt_of_mul_lt_mul_left hlt (Int.le_of_lt hpos))
          (Int.le_of_lt hpos)
      rw [Int.mul_add, Int.mul_one] at hle
      rw [flush_cursor_unit hp, (h.same u rfl).1]
      omega

/-- In unit packing a flush ends where the unit of the bit that is reached does. -/
theorem Represents.flush_eq (h : Represents p x bit cursor unit) (hpos : 0 < x.size)
    (hp : p.packing = .unit) :
    (flush p cursor unit).cursor * 8 = Number.roundUp bit (8 * x.size) := by
  obtain ⟨hle, hge⟩ := h.flush_bounds hpos
  refine Int.le_antisymm hge (Number.roundUp_le_of_dvd hle ?_)
  rw [Int.mul_comm 8]
  exact Int.mul_dvd_mul_right 8 (h.dvd_flush hp)

/-- A width of zero moves on to the next unit. -/
theorem Represents.placeZero (h : Represents p x bit cursor unit) (hpos : 0 < x.size)
    (hsize : x.size = x.alignment) (hf : f.extent = x) :
    Represents p x (Number.roundUp bit (8 * x.size)) (placeZero p f cursor unit).cursor none := by
  have hcursor : (Bitfield.placeZero p f cursor unit).cursor * 8 =
      Number.roundUp bit (8 * x.size) := by
    cases hp : p.packing with
    | unit =>
      have hflush := h.flush_eq hpos hp
      simp only [Bitfield.placeZero, hp]
      exact hflush
    | bits =>
      obtain ⟨hle, hge⟩ := h.flush_bounds hpos
      obtain ⟨k, hk⟩ := exists_roundUp_eq hpos bit
      simp only [Bitfield.placeZero, hp, hf, ← hsize]
      have hround := Number.le_roundUp (flush p cursor unit).cursor x.size
      apply Int.le_antisymm
      · rw [hk] at hge ⊢
        have hleast := Number.roundUp_le_of_dvd (Int.le_of_mul_le_mul_right hge (by decide))
          (Int.dvd_mul_right x.size k)
        omega
      · apply Number.roundUp_le_of_dvd
        · omega
        · rw [Int.mul_comm 8]
          exact Int.mul_dvd_mul_right 8 (Number.dvd_roundUp _ hpos)
  have hstart := represents_start p x
  refine ⟨hcursor, trivial, hstart.same, fun hp => ?_, hstart.used⟩
  have hdvd := h.dvd_flush hp
  simp only [sharedFrom, Bitfield.placeZero, hp]
  exact hdvd

/-! ## Fields with a width -/

/-- What placing a field with a width does: it starts at the bit that is reached, or at the next
unit, and its end is reached then. -/
structure Placed.Counts (p : Profile) (x : Extent) (bit width : Int) (placed : Placed) : Prop where
  placement : ∃ place, placed.placement = some place ∧
    place.IsAt p x (startBit x x.alignment width bit) width
  represents : Represents p x (startBit x x.alignment width bit + width) placed.cursor placed.unit

/-- The place of a field that starts `low` bits into storage at an offset. -/
theorem isAt_report {offset low size padding start : Int} (hf : f.extent = x)
    (hstart : offset * 8 + low = start) :
    (report p offset low width size f.extent.alignment padding).IsAt p x start width where
  start := (allocationBit_report p offset low width size f.extent.alignment padding).trans hstart
  width := rfl
  alignment := congrArg Extent.alignment hf

theorem Placement.IsAt.withFlag {place : Placement} {start : Int} (h : place.IsAt p x start width)
    (flag : Bool) : ({ place with sizeIsFlag := flag } : Placement).IsAt p x start width :=
  ⟨h.start, h.width, h.alignment⟩

/-- In bits packing a field goes to the running bit position. -/
theorem Represents.placeInBits (h : Represents p x bit cursor unit) (hp : p.packing = .bits)
    (hf : f.extent = x) (hnatural : f.natural = x.alignment) (hwidth : 0 < width) :
    (placeInBits p f width cursor unit).Counts p x bit width := by
  have heq : Bitfield.placeInBits p f width cursor unit = placeAtBit p f width cursor bit [] := by
    have hrun := h.running_eq
    cases unit with
    | none =>
      simp only [Bitfield.placeInBits]
      rw [← hrun]
      rfl
    | some u =>
      simp only [Bitfield.placeInBits, hf, accepts_of_same (h.same u rfl), if_true]
      rw [← hrun]
      rfl
  have hcursor : cursor * 8 ≤ bit := by
    have hcons := h.consistent
    have hrun := h.running_eq
    cases unit with
    | none => exact Int.le_of_eq hrun
    | some u =>
      simp only [Consistent, hp] at hcons
      exact Int.le_trans hcons (Int.le_of_eq hrun)
  have hstart := le_startBit x x.alignment width bit
  have hend : ∀ window start : Int, window * 8 + (start - window * 8 + width) = start + width :=
    fun _ _ => by omega
  rw [heq]
  constructor
  case placement =>
    refine ⟨_, rfl, ?_⟩
    rw [← hnatural, ← hf]
    exact isAt_report rfl (Int.ediv_mul_add_emod _ 8)
  case represents =>
    refine ⟨?_, ?_, ?_, ?_, ?_⟩
    · simp only [placeAtBit, running, OpenUnit.endBit, hend, hf, hnatural]
    · simp only [placeAtBit, Consistent, hp, OpenUnit.endBit, hend, hf, hnatural]
      omega
    · rintro _ ⟨⟩
      exact ⟨congrArg Extent.size hf, congrArg Extent.alignment hf⟩
    · intro hunit
      rw [hp] at hunit
      cases hunit
    · intro hunit
      rw [hp] at hunit
      cases hunit

/-- At the start of a unit a field that fits one stays there. -/
theorem startBit_of_dvd (hsize : x.size = x.alignment) (hfit : width ≤ x.size * 8)
    (hdvd : 8 * x.size ∣ bit) : startBit x x.alignment width bit = bit := by
  have hmod : bit % (x.alignment * 8) = 0 := by
    rw [← hsize, Int.mul_comm]
    exact Int.emod_eq_zero_of_dvd hdvd
  unfold startBit
  dsimp only
  rw [hmod, if_neg]
  rw [Bool.and_eq_true, decide_eq_true_eq, decide_eq_true_eq]
  omega

/-- A new unit at the end of a flush starts where the field would without units. -/
theorem Represents.allocate (h : Represents p x bit cursor unit) (hp : p.packing = .unit)
    (hpos : 0 < x.size) (hsize : x.size = x.alignment) (hf : f.extent = x) (hwidth : 0 < width)
    (hfit : width ≤ x.size * 8)
    (hstart : startBit x x.alignment width bit = Number.roundUp bit (8 * x.size))
    (notes : List String) :
    (allocate p f width (flush p cursor unit).cursor notes).Counts p x bit width := by
  have hflush := h.flush_eq hpos hp
  have hoffset : Number.roundUp (flush p cursor unit).cursor f.extent.alignment =
      (flush p cursor unit).cursor := by
    apply Number.roundUp_eq_of_dvd
    rw [hf, ← hsize]
    exact h.dvd_flush hp
  rw [← hflush] at hstart
  constructor
  case placement =>
    refine ⟨_, rfl, ?_⟩
    rw [hstart]
    exact (isAt_report hf (by rw [hoffset, Int.add_zero])).withFlag f.extent.sizeIsFlag
  case represents =>
    refine ⟨?_, ?_, ?_, ?_, ?_⟩
    · simp only [Bitfield.allocate, running, OpenUnit.endBit, hoffset, hstart]
    · simp only [Bitfield.allocate, Consistent, hp, hoffset]
      rw [hf]
      omega
    · rintro _ ⟨⟩
      exact ⟨congrArg Extent.size hf, congrArg Extent.alignment hf⟩
    · intro _
      simp only [Bitfield.allocate, sharedFrom, hoffset]
      exact h.dvd_flush hp
    · rintro _ _ ⟨⟩
      exact hwidth

/-- The next bits of a unit that has room for them. -/
theorem Represents.share {u : OpenUnit} (h : Represents p x bit cursor (some u))
    (hp : p.packing = .unit) (hf : f.extent = x) (hwidth : 0 < width)
    (hroom : u.bitsUsed + width ≤ u.size * 8)
    (hstart : startBit x x.alignment width bit = bit) :
    (share p f width cursor u).Counts p x bit width := by
  have hrun : u.endBit = bit := h.running_eq
  have hcons := h.consistent
  simp only [Consistent, hp] at hcons
  constructor
  case placement =>
    refine ⟨_, rfl, ?_⟩
    rw [hstart]
    exact (isAt_report hf hrun).withFlag u.sizeIsFlag
  case represents =>
    rw [hstart, ← hrun]
    refine ⟨?_, ?_, ?_, ?_, ?_⟩
    · simp only [Bitfield.share, running, OpenUnit.endBit]
      omega
    · simp only [Bitfield.share, Consistent, hp]
      exact ⟨hcons.1, by omega, hroom⟩
    · rintro _ ⟨⟩
      exact h.same u rfl
    · exact h.whole
    · rintro _ _ ⟨⟩
      show 0 < u.bitsUsed + width
      omega

/-- The bit that is reached in an open unit. -/
theorem Represents.emod_eq {u : OpenUnit} (h : Represents p x bit cursor (some u))
    (hp : p.packing = .unit) : bit % (8 * x.size) = u.bitsUsed % (8 * x.size) := by
  obtain ⟨j, hj⟩ := h.whole hp
  have hrun : u.endBit = bit := h.running_eq
  simp only [sharedFrom] at hj
  rw [← hrun, OpenUnit.endBit, hj, Int.mul_comm (x.size * j), ← Int.mul_assoc, Int.mul_comm,
    Int.add_comm, Int.add_mul_emod_self_right]

/-- In unit packing a field shares the open unit where it would not straddle two units, and else
starts a new one. -/
theorem Represents.placeInUnit (h : Represents p x bit cursor unit) (hp : p.packing = .unit)
    (hpos : 0 < x.size) (hsize : x.size = x.alignment) (hf : f.extent = x) (hwidth : 0 < width)
    (hfit : width ≤ x.size * 8) : (placeInUnit p f width cursor unit).Counts p x bit width := by
  cases unit with
  | none =>
    have hdvd : 8 * x.size ∣ bit := by
      have hrun := h.running_eq
      simp only [running] at hrun
      rw [← hrun, Int.mul_comm 8]
      exact Int.mul_dvd_mul_right 8 (h.whole hp)
    refine h.allocate hp hpos hsize hf hwidth hfit ?_ []
    rw [startBit_of_dvd hsize hfit hdvd, Number.roundUp_eq_of_dvd hdvd]
  | some u =>
    have haccepts : u.accepts p f.extent = true := hf ▸ accepts_of_same (h.same u rfl)
    have hmod := h.emod_eq hp
    have hused := h.used hp u rfl
    have hcons := h.consistent
    simp only [Consistent, hp, (h.same u rfl).1] at hcons
    simp only [Bitfield.placeInUnit, haccepts, Bool.true_and, decide_eq_true_eq, (h.same u rfl).1]
    by_cases hroom : u.bitsUsed + width ≤ x.size * 8
    · rw [if_pos hroom]
      refine h.share hp hf hwidth (by rw [(h.same u rfl).1]; exact hroom) ?_
      -- A unit with room is not full, so the bits used are those after the start of a window.
      rw [Int.emod_eq_of_lt (a := u.bitsUsed) (by omega) (by omega)] at hmod
      rw [Int.mul_comm, hsize] at hmod
      unfold startBit
      dsimp only
      rw [hmod, if_neg]
      rw [Bool.and_eq_true, decide_eq_true_eq, decide_eq_true_eq]
      omega
    · rw [if_neg hroom]
      refine h.allocate hp hpos hsize hf hwidth hfit ?_ _
      by_cases hfull : u.bitsUsed = x.size * 8
      · have hdvd : 8 * x.size ∣ bit := by
          apply Int.dvd_of_emod_eq_zero
          rw [hmod, hfull, Int.mul_comm, Int.emod_self]
        rw [startBit_of_dvd hsize hfit hdvd, Number.roundUp_eq_of_dvd hdvd]
      · rw [Int.emod_eq_of_lt (a := u.bitsUsed) (by omega) (by omega)] at hmod
        rw [Int.mul_comm, hsize] at hmod
        unfold startBit
        dsimp only
        rw [hmod, if_pos, Int.mul_comm, hsize]
        rw [Bool.and_eq_true, decide_eq_true_eq, decide_eq_true_eq]
        omega

/-- **Placing a field counts its bits**, in either packing. -/
theorem Represents.placeWidth (h : Represents p x bit cursor unit) (hpos : 0 < x.size)
    (hsize : x.size = x.alignment) (hf : f.extent = x) (hnatural : f.natural = x.alignment)
    (hwidth : 0 ≤ width) (hfit : width ≤ x.size * 8) :
    Represents p x (bitAfter x bit width) (placeWidth p f width cursor unit).cursor
        (placeWidth p f width cursor unit).unit ∧
      (width = 0 → (placeWidth p f width cursor unit).placement = none) ∧
      (0 < width → ∃ place, (placeWidth p f width cursor unit).placement = some place ∧
        place.IsAt p x (startBit x x.alignment width bit) width) := by
  by_cases hzero : width = 0
  · simp only [Bitfield.placeWidth, bitAfter, hzero, if_true]
    exact ⟨h.placeZero hpos hsize hf, fun _ => rfl, fun hlt => absurd hlt (Int.lt_irrefl 0)⟩
  · have hlt : 0 < width := by omega
    have hcounts : (Bitfield.placeWidth p f width cursor unit).Counts p x bit width := by
      rw [Bitfield.placeWidth, if_neg hzero]
      cases hp : p.packing with
      | bits => exact h.placeInBits hp hf hnatural hlt
      | unit => exact h.placeInUnit hp hpos hsize hf hlt hfit
    rw [bitAfter, if_neg hzero]
    exact ⟨hcounts.represents, fun heq => absurd heq hzero, fun _ => hcounts.placement⟩

end

end RecordLayout.Bitfield
