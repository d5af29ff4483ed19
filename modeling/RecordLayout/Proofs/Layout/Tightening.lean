import RecordLayout.Proofs.Layout.Placement

/-!
# Bitfields under a tighter cap

Two runs of the allocator place the same fields, the first under a tighter cap on alignments.  The
cap decides which fields may straddle, which base types count as the same unit and where fields of
width zero align, so one run may close a unit that the other one shares.  No field of the first run
is placed further out than in the second run all the same.

In bits packing it is enough to compare the bits up to which storage is used.  In unit packing the
open units of the two runs are compared (`OpenUnit.Tighter`).  Either the unit of the first run is
no further out and no fuller, or it lies altogether before the unit of the second run.  In the
latter case the first unit may fill up earlier; the next unit then still starts no later than the
second one, whose place is aligned for the same base type.  Where base types share units the two
units are always equally full, so they are closed together.

## Main definitions

* `Bitfield.Field.Tighter` and `Bitfield.OpenUnit.Tighter` compare fields and open units;
* `Bitfield.Tighter` compares states of the allocator, `Bitfield.Placed.Tighter` what is placed.

## Main results

* `Bitfield.place_alike`: a field is placed in both runs or in none, and no further out in the
  first.
-/

namespace RecordLayout.Bitfield

/-! ## Relations -/

/-- A field is another one under a tighter cap.  All its alignments are powers of two. -/
structure Field.Tighter (cap : Int) (f g : Field) : Prop where
  width : f.width = g.width
  size : f.extent.size = g.extent.size
  natural : f.natural = g.natural
  alignment : f.extent.alignment = min g.extent.alignment cap
  capped : g.extent.alignment ≤ g.natural
  power : Number.isPowerOfTwo f.extent.alignment = true
  power' : Number.isPowerOfTwo g.extent.alignment = true

/-- How the open units of two runs stand, of which the first is under the tighter cap. -/
structure OpenUnit.Tighter (p : Profile) (cap : Int) (u v : OpenUnit) : Prop where
  size : u.size = v.size
  alignment : u.alignment = min v.alignment cap
  bits : p.packing = .bits → u.endBit ≤ v.endBit
  aligned : p.packing = .unit → v.alignment ∣ v.offset
  /-- The first unit is no further out and no fuller, or it lies before the second one. -/
  unit : p.packing = .unit →
    (u.offset ≤ v.offset ∧ u.bitsUsed ≤ v.bitsUsed ∧
        (p.unitReuse = true → u.bitsUsed = v.bitsUsed)) ∨
      (p.unitReuse = false ∧ u.offset + u.size ≤ v.offset)

/-- How the states of two runs stand.  While units are open it is they that decide. -/
inductive Tighter (p : Profile) (cap : Int) (cursor : Int) :
    Option OpenUnit → Int → Option OpenUnit → Prop
  | closed {cursor' : Int} (le : cursor ≤ cursor') : Tighter p cap cursor none cursor' none
  | opened {cursor' : Int} {u v : OpenUnit} (unit : u.Tighter p cap v) :
    Tighter p cap cursor (some u) cursor' (some v)

/-- How the places of a field in two runs stand. -/
structure Placement.Tighter (fill : FillDirection) (a b : Placement) : Prop where
  start : allocationBit fill a.byteOffset a.unitSize a.bitOffset a.bitWidth ≤
    allocationBit fill b.byteOffset b.unitSize b.bitOffset b.bitWidth
  width : a.bitWidth = b.bitWidth

/-- How a field placed in two runs stands, and the states after it. -/
structure Placed.Tighter (p : Profile) (cap : Int) (a b : Placed) : Prop where
  state : Bitfield.Tighter p cap a.cursor a.unit b.cursor b.unit
  placement : Option.Rel (Placement.Tighter p.fill) a.placement b.placement

section

variable {p : Profile} {cap cursor cursor' : Int} {unit unit' : Option OpenUnit} {u v : OpenUnit}
  {f g : Field} {width : Int}

/-- In bits packing the bits that are used decide. -/
theorem OpenUnit.Tighter.of_bits (hp : p.packing = .bits) (hsize : u.size = v.size)
    (halignment : u.alignment = min v.alignment cap) (hbits : u.endBit ≤ v.endBit) :
    u.Tighter p cap v := by
  refine ⟨hsize, halignment, fun _ => hbits, ?_, ?_⟩ <;>
    · intro hunit
      rw [hp] at hunit
      cases hunit

/-- In unit packing the places of the units decide. -/
theorem OpenUnit.Tighter.of_unit (hp : p.packing = .unit) (hsize : u.size = v.size)
    (halignment : u.alignment = min v.alignment cap) (haligned : v.alignment ∣ v.offset)
    (hunit : (u.offset ≤ v.offset ∧ u.bitsUsed ≤ v.bitsUsed ∧
        (p.unitReuse = true → u.bitsUsed = v.bitsUsed)) ∨
      (p.unitReuse = false ∧ u.offset + u.size ≤ v.offset)) : u.Tighter p cap v := by
  refine ⟨hsize, halignment, ?_, fun _ => haligned, fun _ => hunit⟩
  intro hbits
  rw [hp] at hbits
  cases hbits

namespace Field.Tighter

theorem alignment_le (h : f.Tighter cap g) : f.extent.alignment ≤ g.extent.alignment := by
  rw [h.alignment]
  exact Int.min_le_left _ _

theorem dvd (h : f.Tighter cap g) : f.extent.alignment ∣ g.extent.alignment :=
  Number.dvd_of_le h.power h.power' h.alignment_le

/-- A field that may not straddle under the tighter cap is not capped at all. -/
theorem alignment_eq (h : f.Tighter cap g) (hnatural : f.natural ≤ f.extent.alignment) :
    f.extent.alignment = g.extent.alignment := by
  have hle := h.alignment_le
  have hcapped := h.capped
  rw [h.natural] at hnatural
  omega

/-- The tighter cap makes more base types count as the same unit. -/
theorem accepts (h : f.Tighter cap g) (huv : u.Tighter p cap v)
    (haccepts : v.accepts p g.extent = true) : u.accepts p f.extent = true := by
  unfold OpenUnit.accepts OpenUnit.matches at *
  rw [Bool.or_eq_true, Bool.and_eq_true, beq_iff_eq, beq_iff_eq] at *
  rcases haccepts with ⟨hsize, halignment⟩ | hreuse
  · left
    constructor
    · rw [huv.size, h.size, hsize]
    · rw [huv.alignment, h.alignment, halignment]
  · exact .inr hreuse

end Field.Tighter

/-- Two reports, the first of which starts no later. -/
theorem Placement.Tighter.of_report {offset offset' low low' size size' alignment alignment'
      padding padding' : Int} {flag flag' : Bool} (h : offset * 8 + low ≤ offset' * 8 + low') :
    Placement.Tighter p.fill
      { report p offset low width size alignment padding with sizeIsFlag := flag }
      { report p offset' low' width size' alignment' padding' with sizeIsFlag := flag' } := by
  refine ⟨?_, rfl⟩
  rw [← allocationBit_report p offset low width size alignment padding,
    ← allocationBit_report p offset' low' width size' alignment' padding'] at h
  exact h

/-- **Closing the units** leaves the first run no further out. -/
theorem Tighter.flush_le (h : Tighter p cap cursor unit cursor' unit')
    (hcons : Consistent p cursor unit) (hcons' : Consistent p cursor' unit') :
    (flush p cursor unit).cursor ≤ (flush p cursor' unit').cursor := by
  cases h with
  | closed le => exact le
  | @opened _ u v huv =>
    cases hp : p.packing with
    | bits =>
      refine Int.le_trans (flush_le_of_running hp hcons (huv.bits hp)) ?_
      rw [flush_cursor_bits hp]
      exact Int.le_max_right _ _
    | unit =>
      simp only [Consistent, hp] at hcons hcons'
      have hsize := huv.size
      -- A flush ends with the unit, and the first one does not reach beyond the second.
      rw [flush_cursor_unit hp, flush_cursor_unit hp]
      rcases huv.unit hp with ⟨hoffset, -, -⟩ | ⟨-, hbefore⟩ <;> omega

/-! ## Bits packing -/

/-- A field at a running position starts no later when the position does. -/
theorem startBit_tighter (h : f.Tighter cap g) (hwidth : width ≤ f.extent.size * 8)
    {start start' : Int} (hstart : start ≤ start') :
    startBit f.extent f.natural width start ≤ startBit g.extent g.natural width start' := by
  apply startBit_le_of_fits
  · exact Int.le_trans hstart (le_startBit _ _ _ _)
  · -- A field that may not straddle in the first run fits the same window in the second one.
    intro hnatural
    have halignment := h.alignment_eq hnatural
    rw [halignment, h.size]
    rw [halignment, h.natural] at hnatural
    exact startBit_fits (Number.pos_of_isPowerOfTwo h.power') (h.size ▸ hwidth) hnatural

theorem placeAtBit_tighter (hp : p.packing = .bits) (h : f.Tighter cap g)
    (hwidth : width ≤ f.extent.size * 8) {start start' : Int} (hstart : start ≤ start')
    (notes notes' : List String) :
    (placeAtBit p f width cursor start notes).Tighter p cap
      (placeAtBit p g width cursor' start' notes') := by
  have hle := startBit_tighter h hwidth hstart
  refine ⟨.opened (.of_bits hp h.size h.alignment ?_), .some (.of_report ?_)⟩
  · simp only [OpenUnit.endBit]
    omega
  · omega

theorem placeInBits_tighter (hp : p.packing = .bits) (h : f.Tighter cap g)
    (hwidth : width ≤ f.extent.size * 8) (hs : Tighter p cap cursor unit cursor' unit')
    (hcons : Consistent p cursor unit) (hcons' : Consistent p cursor' unit') :
    (placeInBits p f width cursor unit).Tighter p cap (placeInBits p g width cursor' unit') := by
  have hflush := hs.flush_le hcons hcons'
  have hrunning := running_le_flush hcons'
  cases hs with
  | closed le => exact placeAtBit_tighter hp h hwidth (by omega) _ _
  | @opened _ u v huv =>
    have hbits := huv.bits hp
    simp only [running] at hrunning
    simp only [placeInBits]
    by_cases hv : v.accepts p g.extent = true
    · rw [if_pos hv, if_pos (h.accepts huv hv)]
      exact placeAtBit_tighter hp h hwidth hbits _ _
    · rw [if_neg hv]
      by_cases hu : u.accepts p f.extent = true
      · rw [if_pos hu]
        exact placeAtBit_tighter hp h hwidth (Int.le_trans hbits hrunning) _ _
      · rw [if_neg hu]
        exact placeAtBit_tighter hp h hwidth (by omega) _ _

/-! ## Unit packing -/

/-- Fields that both start a new unit. -/
theorem allocate_tighter (hp : p.packing = .unit) (h : f.Tighter cap g) (hcursor : cursor ≤ cursor')
    (notes notes' : List String) :
    (allocate p f width cursor notes).Tighter p cap (allocate p g width cursor' notes') := by
  have hpos := Number.pos_of_isPowerOfTwo h.power'
  have hoffset := Number.roundUp_le_roundUp hcursor h.dvd hpos
  refine ⟨.opened (.of_unit hp h.size h.alignment ?_ (.inl ?_)), .some (.of_report ?_)⟩
  · exact Number.dvd_roundUp cursor' hpos
  · exact ⟨hoffset, Int.le_refl _, fun _ => rfl⟩
  · omega

/-- Fields that both share the open unit. -/
theorem share_tighter (hp : p.packing = .unit) (huv : u.Tighter p cap v)
    (hwidth : 0 ≤ width) (hused : 0 ≤ v.bitsUsed) (hfit : u.bitsUsed + width ≤ u.size * 8) :
    (share p f width cursor u).Tighter p cap (share p g width cursor' v) := by
  refine ⟨.opened (.of_unit hp huv.size huv.alignment (huv.aligned hp) ?_), .some (.of_report ?_)⟩
  · simp only
    rcases huv.unit hp with ⟨hoffset, hle, heq⟩ | hbefore
    · left
      refine ⟨hoffset, by omega, fun hreuse => ?_⟩
      rw [heq hreuse]
    · exact .inr hbefore
  · rcases huv.unit hp with ⟨hoffset, hle, -⟩ | ⟨-, hbefore⟩ <;> omega

/-- Only the second run closes its unit: the first unit is then before the new one. -/
theorem share_allocate_tighter (hp : p.packing = .unit) (hreuse : p.unitReuse = false)
    (h : f.Tighter cap g) (huv : u.Tighter p cap v) (hsize : u.size = f.extent.size)
    (halignment : u.alignment = f.extent.alignment) (hwidth : 0 ≤ width)
    (hcons' : Consistent p cursor' (some v)) (hfit : u.bitsUsed + width ≤ u.size * 8)
    (notes : List String) :
    (share p f width cursor u).Tighter p cap
      (allocate p g width (flush p cursor' (some v)).cursor notes) := by
  have hpos := Number.pos_of_isPowerOfTwo h.power'
  have hround := Number.le_roundUp (flush p cursor' (some v)).cursor g.extent.alignment
  have hend := Int.le_max_right cursor' (v.offset + v.size)
  rw [← flush_cursor_unit hp] at hend
  simp only [Consistent, hp] at hcons'
  have hbefore : u.offset + u.size ≤
      Number.roundUp (flush p cursor' (some v)).cursor g.extent.alignment := by
    have hsizes := huv.size
    rcases huv.unit hp with ⟨hoffset, -, -⟩ | ⟨-, hbefore⟩ <;> omega
  refine ⟨.opened (.of_unit hp ?_ ?_ ?_ (.inr ⟨hreuse, hbefore⟩)), .some (.of_report ?_)⟩
  · exact hsize.trans h.size
  · exact halignment.trans h.alignment
  · exact Number.dvd_roundUp _ hpos
  · omega

/-- Only the first run closes its unit, which is full earlier: the new one starts no later than the
unit that the second run shares. -/
theorem allocate_share_tighter (hp : p.packing = .unit) (hreuse : p.unitReuse = false)
    (h : f.Tighter cap g) (huv : u.Tighter p cap v) (hbefore : u.offset + u.size ≤ v.offset)
    (hsize : v.size = g.extent.size) (halignment : v.alignment = g.extent.alignment)
    (hcons : Consistent p cursor (some u)) (hcons' : Consistent p cursor' (some v))
    (notes : List String) :
    (allocate p f width (flush p cursor (some u)).cursor notes).Tighter p cap
      (share p g width cursor' v) := by
  simp only [Consistent, hp] at hcons hcons'
  have hflush : (flush p cursor (some u)).cursor ≤ v.offset := by
    rw [flush_cursor_unit hp]
    omega
  -- The second unit takes the field, so it is aligned for its base type, all the more under the
  -- tighter cap.
  have hdvd : f.extent.alignment ∣ v.offset := by
    apply Int.dvd_trans h.dvd
    rw [← halignment]
    exact huv.aligned hp
  have hoffset := Number.roundUp_le_of_dvd hflush hdvd
  refine ⟨.opened (.of_unit hp ?_ ?_ (huv.aligned hp) (.inl ⟨hoffset, ?_, ?_⟩)),
    .some (.of_report ?_)⟩
  · exact h.size.trans hsize.symm
  · rw [halignment]
    exact h.alignment
  · simp only
    omega
  · intro htrue
    rw [hreuse] at htrue
    cases htrue
  · omega

/-- Without reuse across base types a unit takes the fields of one size and alignment. -/
theorem matches_of_accepts (hreuse : p.unitReuse = false) {x : Extent}
    (h : u.accepts p x = true) : u.size = x.size ∧ u.alignment = x.alignment := by
  unfold OpenUnit.accepts OpenUnit.matches at h
  rw [hreuse, Bool.or_false, Bool.and_eq_true, beq_iff_eq, beq_iff_eq] at h
  exact h

/-- Whether the open unit takes a field in unit packing. -/
theorem placeInUnit_some (p : Profile) (f : Field) (width cursor : Int) (u : OpenUnit) :
    (u.accepts p f.extent = true ∧ u.bitsUsed + width ≤ u.size * 8 ∧
        placeInUnit p f width cursor (some u) = share p f width cursor u) ∨
      (¬ (u.accepts p f.extent = true ∧ u.bitsUsed + width ≤ u.size * 8) ∧
        placeInUnit p f width cursor (some u) =
          allocate p f width (flush p cursor (some u)).cursor (flush p cursor (some u)).notes) := by
  by_cases h : u.accepts p f.extent = true ∧ u.bitsUsed + width ≤ u.size * 8
  · left
    refine ⟨h.1, h.2, ?_⟩
    simp only [placeInUnit, h, decide_true, Bool.and_self, if_true]
  · right
    refine ⟨h, ?_⟩
    rw [← decide_eq_true_iff (p := u.bitsUsed + width ≤ _), ← Bool.and_eq_true] at h
    simp only [placeInUnit, if_neg h]

theorem placeInUnit_tighter (hp : p.packing = .unit) (h : f.Tighter cap g) (hwidth : 0 ≤ width)
    (hs : Tighter p cap cursor unit cursor' unit') (hcons : Consistent p cursor unit)
    (hcons' : Consistent p cursor' unit') :
    (placeInUnit p f width cursor unit).Tighter p cap (placeInUnit p g width cursor' unit') := by
  have hflush := hs.flush_le hcons hcons'
  cases hs with
  | closed le => exact allocate_tighter hp h le _ _
  | @opened _ u v huv =>
    have hused : 0 ≤ v.bitsUsed := by
      simp only [Consistent, hp] at hcons'
      exact hcons'.2.1
    have hsizes := huv.size
    rcases placeInUnit_some p f width cursor u with ⟨haccepts, hfit, heq⟩ | ⟨hfull, heq⟩ <;>
      rcases placeInUnit_some p g width cursor' v with ⟨haccepts', hfit', heq'⟩ | ⟨hfull', heq'⟩ <;>
        rw [heq, heq']
    · exact share_tighter hp huv hwidth hused hfit
    · -- Where base types share units the units are equally full, and both take the field.
      have hreuse : p.unitReuse = false := by
        refine Bool.eq_false_iff.mpr fun htrue => hfull' ⟨accepts_of_unitReuse htrue v _, ?_⟩
        rcases huv.unit hp with ⟨-, -, hequal⟩ | ⟨hfalse, -⟩
        · have hequal := hequal htrue
          omega
        · rw [htrue] at hfalse
          cases hfalse
      obtain ⟨hsize, halignment⟩ := matches_of_accepts hreuse haccepts
      exact share_allocate_tighter hp hreuse h huv hsize halignment hwidth hcons' hfit _
    · -- The first unit is fuller than the second one, so it lies before it.
      have hroom : ¬ u.bitsUsed + width ≤ u.size * 8 := fun hfit =>
        hfull ⟨h.accepts huv haccepts', hfit⟩
      rcases huv.unit hp with ⟨-, hle, -⟩ | ⟨hreuse, hbefore⟩
      · omega
      · obtain ⟨hsize, halignment⟩ := matches_of_accepts hreuse haccepts'
        exact allocate_share_tighter hp hreuse h huv hbefore hsize halignment hcons hcons' _
    · exact allocate_tighter hp h hflush _ _

/-! ## All placements -/

theorem placeZero_tighter (h : f.Tighter cap g) (hs : Tighter p cap cursor unit cursor' unit')
    (hcons : Consistent p cursor unit) (hcons' : Consistent p cursor' unit') :
    (placeZero p f cursor unit).Tighter p cap (placeZero p g cursor' unit') := by
  have hflush := hs.flush_le hcons hcons'
  refine ⟨.closed ?_, .none⟩
  unfold placeZero
  cases p.packing with
  | bits => exact Number.roundUp_le_roundUp hflush h.dvd (Number.pos_of_isPowerOfTwo h.power')
  | unit => exact hflush

theorem placeWidth_tighter (h : f.Tighter cap g) (hwidth : 0 ≤ width)
    (hfit : width ≤ f.extent.size * 8) (hs : Tighter p cap cursor unit cursor' unit')
    (hcons : Consistent p cursor unit) (hcons' : Consistent p cursor' unit') :
    (placeWidth p f width cursor unit).Tighter p cap (placeWidth p g width cursor' unit') := by
  unfold placeWidth
  by_cases hzero : width = 0
  · rw [if_pos hzero, if_pos hzero]
    exact placeZero_tighter h hs hcons hcons'
  · rw [if_neg hzero, if_neg hzero]
    cases hp : p.packing with
    | bits => exact placeInBits_tighter hp h hfit hs hcons hcons'
    | unit => exact placeInUnit_tighter hp h hwidth hs hcons hcons'

/-- A base type that is aligned at all has windows. -/
theorem hasEmptyWindow_eq_false (hpos : 0 < f.extent.alignment) : f.hasEmptyWindow = false := by
  unfold Field.hasEmptyWindow
  rw [beq_false_of_ne (Int.ne_of_gt hpos), Bool.false_and]

theorem place_eq_map (hpos : 0 < f.extent.alignment) (cursor : Int) (unit : Option OpenUnit) :
    place p f cursor unit = f.checkedWidth.map fun width => placeWidth p f width cursor unit := by
  unfold place attempt
  rw [hasEmptyWindow_eq_false hpos]
  cases f.checkedWidth with
  | error failure => rfl
  | ok width => simp [Except.mapError, Except.map]

/-- **A field is placed in both runs or in none**, and no further out in the first. -/
theorem place_alike (h : f.Tighter cap g) (hs : Tighter p cap cursor unit cursor' unit')
    (hcons : Consistent p cursor unit) (hcons' : Consistent p cursor' unit') :
    (place p f cursor unit).Alike (Placed.Tighter p cap) (place p g cursor' unit') := by
  have hchecked : f.checkedWidth.Alike (· = ·) g.checkedWidth := by
    unfold Field.checkedWidth
    rw [h.width, h.size]
    cases width? g.width with
    | none => exact .error trivial
    | some width =>
      dsimp only
      split
      · exact .error trivial
      · exact .ok rfl
  rw [place_eq_map (Number.pos_of_isPowerOfTwo h.power),
    place_eq_map (Number.pos_of_isPowerOfTwo h.power')]
  refine hchecked.returned.map fun width width' hwidth => ?_
  obtain ⟨rfl, hok, -⟩ := hwidth
  obtain ⟨-, hnonneg, hfit⟩ := checkedWidth_eq_ok hok
  exact placeWidth_tighter h hnonneg hfit hs hcons hcons'

end

end RecordLayout.Bitfield
