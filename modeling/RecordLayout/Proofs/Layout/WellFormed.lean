import RecordLayout.Proofs.Layout.Induction
import RecordLayout.Proofs.Layout.MemberExtent
import RecordLayout.Proofs.Layout.Placement

/-!
# Well-formed layouts

The members of a struct lie one after another, bit by bit in the order of declaration, and storage
that is reported for a bitfield is shared with other bitfields at most.  The members of a union all
start where it does.  What an anonymous member lends to the scope around it stays inside of that
member, and everything stays inside of the aggregate.

A struct is placed by one pass with a byte cursor and at most one open storage unit.  The invariant
of the pass says of each member so far where it stands towards the cursor and the unit
(`MemberLayout.Settled`): its bits end where the next bitfield may start, its bytes end where a
flush would, and in unit packing its storage is the open unit or lies before it.  A member that is
placed then lies after all that are settled, and settles behind them.

## Main definitions

* `MemberLayout.startBit` and `MemberLayout.endBit` are the bits of a member in the order of
  declaration;
* `LayoutResult.IsWellFormed` says that the layout of an aggregate is well formed;
* `WellLaid` says so of all layouts nested in it, too.

## Main results

* `wellLaid_invariant`: the layouts that a walk makes up are well formed.
-/

namespace RecordLayout

/-! ## Well-formedness -/

namespace MemberLayout

/-- The first bit of a member, counted from bit 0 of the aggregate in the order of declaration. -/
def startBit (fill : FillDirection) (m : MemberLayout) : Int :=
  match m.bits with
  | none => m.byteOffset * 8
  | some b => Bitfield.allocationBit fill m.byteOffset m.size b.offset b.width

/-- The bit after the last one of a member. -/
def endBit (fill : FillDirection) (m : MemberLayout) : Int :=
  match m.bits with
  | none => m.endOffset * 8
  | some b => m.startBit fill + b.width

/-- One member lies inside the bytes of another. -/
def Encloses (m f : MemberLayout) : Prop :=
  m.byteOffset ≤ f.byteOffset ∧ f.endOffset ≤ m.endOffset

/-- The bits of a bitfield lie in the storage that is reported for it. -/
def BitsFit (m : MemberLayout) : Prop :=
  ∀ b, m.bits = some b → 0 < b.width ∧ 0 ≤ b.offset ∧ b.offset + b.width ≤ 8 * m.size

end MemberLayout

/-- Whether a member appears in the layout of its aggregate: unnamed bitfields and those of width
zero do not. -/
def Member.isReported (x : Member) : Bool :=
  match x.type with
  | .bitfield _ width => x.name.isSome && width.number? != some 0
  | _ => true

/-- A direct member with the fields that are promoted from it: only an unnamed aggregate has any,
they are the named fields of its layout, and they lie inside of it. -/
structure Slot.Promotes (t : Slot) : Prop where
  direct : t.placed.promoted = false
  fields : t.promoted =
    match t.placed.name, t.placed.layout with
    | none, some nested => promotedFrom t.placed.byteOffset nested
    | _, _ => []
  inside : ∀ f ∈ t.promoted, f.promoted = true ∧ t.placed.Encloses f

/-- The layout of an aggregate is well formed. -/
structure LayoutResult.IsWellFormed (p : Profile) (a : Aggregate) (r : LayoutResult) : Prop where
  kind : r.kind = .aggregate a.kind
  /-- The direct members are those declared, in that order. -/
  declared : r.direct.map (·.name) = (a.members.filter Member.isReported).map (·.name)
  /-- The bits of each member of a struct start at or after the end of those before. -/
  ordered : a.kind = .struct →
    r.direct.Pairwise fun m n => m.endBit p.fill ≤ n.startBit p.fill
  /-- No storage of a bitfield meets a member that is none. -/
  apart : a.kind = .struct → ∀ m ∈ r.direct, ∀ n ∈ r.direct, m.isBitfield = true →
    n.isBitfield = false → m.endOffset ≤ n.byteOffset ∨ n.endOffset ≤ m.byteOffset
  /-- Two storage units are equal or disjoint. -/
  units : a.kind = .struct → p.packing = .unit → ∀ m ∈ r.direct, ∀ n ∈ r.direct,
    m.isBitfield = true → n.isBitfield = true → (m.byteOffset = n.byteOffset ∧ m.size = n.size) ∨
      m.endOffset ≤ n.byteOffset ∨ n.endOffset ≤ m.byteOffset
  overlaid : a.kind = .union → ∀ m ∈ r.direct, m.byteOffset = 0
  bits : ∀ m ∈ r.members, m.BitsFit
  size_nonneg : 0 ≤ r.size
  inside : ∀ m ∈ r.members, 0 ≤ m.byteOffset ∧ 0 ≤ m.size ∧ m.endOffset ≤ r.size
  promotion : ∃ slots : List Slot, r.members = slots.flatMap Slot.members ∧ ∀ t ∈ slots, t.Promotes
  /-- Only an aggregate member has a layout of its own. -/
  nested : ∀ m ∈ r.members, m.layout.isSome → ∃ b, m.type = .aggregate b

/-- The layout of an aggregate and all layouts nested in it are well formed. -/
inductive WellLaid (p : Profile) : Aggregate → LayoutResult → Prop
  | intro {a : Aggregate} {r : LayoutResult} (shape : r.IsWellFormed p a)
      (nested : ∀ m ∈ r.members, ∀ b n, m.type = .aggregate b → m.layout = some n →
        WellLaid p b n) : WellLaid p a r

theorem WellLaid.shape {p : Profile} {a : Aggregate} {r : LayoutResult} (h : WellLaid p a r) :
    r.IsWellFormed p a := by
  cases h
  assumption

theorem WellLaid.of_mem {p : Profile} {a b : Aggregate} {r n : LayoutResult} {m : MemberLayout}
    (h : WellLaid p a r) (hm : m ∈ r.members) (hb : m.type = .aggregate b)
    (hn : m.layout = some n) : WellLaid p b n := by
  cases h with
  | intro shape nested => exact nested m hm b n hb hn

/-! ## Order in a struct -/

/-- How a member of a struct comes before another one. -/
structure MemberLayout.Precedes (p : Profile) (m n : MemberLayout) : Prop where
  bits : m.endBit p.fill ≤ n.startBit p.fill
  apart : m.isBitfield = false ∨ n.isBitfield = false → m.endOffset ≤ n.byteOffset
  units : p.packing = .unit → m.isBitfield = true → n.isBitfield = true →
    (m.byteOffset = n.byteOffset ∧ m.size = n.size) ∨ m.endOffset ≤ n.byteOffset

/-- Where a member that is placed stands towards the cursor and the open unit. -/
structure MemberLayout.Settled (p : Profile) (cursor : Int) (unit : Option Bitfield.OpenUnit)
    (m : MemberLayout) : Prop where
  bits : m.endBit p.fill ≤ Bitfield.running cursor unit
  plain : m.isBitfield = false → m.endOffset ≤ cursor
  flushed : m.endOffset ≤ (Bitfield.flush p cursor unit).cursor
  units : p.packing = .unit → m.isBitfield = true →
    (∃ u, unit = some u ∧ m.byteOffset = u.offset ∧ m.size = u.size) ∨
      m.endOffset ≤ Bitfield.sharedFrom cursor unit

section Order

variable {p : Profile} {cursor : Int} {unit : Option Bitfield.OpenUnit} {m : MemberLayout}

namespace MemberLayout.Settled

/-- What is settled stays so when the unit is closed. -/
theorem close {cursor' : Int} (h : m.Settled p cursor unit)
    (hcons : Bitfield.Consistent p cursor unit)
    (hc : (Bitfield.flush p cursor unit).cursor ≤ cursor') : m.Settled p cursor' none where
  bits := by
    have hrun := Int.le_trans h.bits (Bitfield.running_le_flush hcons)
    simp only [Bitfield.running]
    omega
  plain _ := Int.le_trans h.flushed hc
  flushed := Int.le_trans h.flushed hc
  units _ _ := .inr (Int.le_trans h.flushed hc)

/-- What is settled stays so when a bitfield is placed. -/
theorem place {placed : Bitfield.Placed} {place : Bitfield.Placement} (h : m.Settled p cursor unit)
    (adv : placed.Advances p cursor unit place) : m.Settled p placed.cursor placed.unit where
  bits := by
    have hrun := Int.le_trans h.bits adv.running_le
    have hwidth := adv.width_pos
    rw [adv.running_eq]
    omega
  plain hm := Int.le_trans (h.plain hm) adv.cursor_le
  flushed := Int.le_trans h.flushed adv.flush_le
  units hp hm := by
    obtain ⟨u, hu, hstart, -, hshared⟩ := adv.shared hp
    -- The unit is either the one that was open or a new one after all that was settled.
    rcases hshared with ⟨v, rfl, hoffset, hsize⟩ | hflush
    · rcases h.units hp hm with ⟨w, hw, ho, hs⟩ | hle
      · cases hw
        exact .inl ⟨u, hu, ho.trans hoffset, hs.trans hsize⟩
      · refine .inr ?_
        simp only [Bitfield.sharedFrom] at hle
        simpa only [hu, Bitfield.sharedFrom, ← hoffset] using hle
    · refine .inr (Int.le_trans h.flushed (Int.le_trans hflush ?_))
      exact Int.le_of_eq (by rw [hu, Bitfield.sharedFrom, hstart])

/-- A bitfield is placed after all that is settled. -/
theorem precedes_bitfield {x : Member} {placed : Bitfield.Placed} {place : Bitfield.Placement}
    (h : m.Settled p cursor unit) (adv : placed.Advances p cursor unit place) :
    m.Precedes p (bitfieldSlot x place).placed where
  bits := Int.le_trans h.bits adv.running_le
  apart hor := by
    have hplain : m.isBitfield = false := hor.resolve_right (by simp [isBitfield, bitfieldSlot])
    exact Int.le_trans (h.plain hplain) (Int.le_trans adv.cursor_le adv.storage_start)
  units hp hm _ := by
    obtain ⟨u, -, hstart, hsize, hshared⟩ := adv.shared hp
    -- In the unit that was open a bitfield shares the storage of those before it.
    rcases hshared with ⟨v, rfl, hoffset, hsize'⟩ | hflush
    · rcases h.units hp hm with ⟨w, hw, ho, hs⟩ | hle
      · cases hw
        exact .inl ⟨ho.trans (hoffset.trans hstart), hs.trans (hsize'.trans hsize)⟩
      · refine .inr ?_
        rw [Bitfield.sharedFrom, hoffset, hstart] at hle
        exact hle
    · exact .inr (Int.le_trans h.flushed hflush)

/-- Any other member is placed after all that is settled, once the unit is closed. -/
theorem precedes_value {x : Member} {index : Nat} {offset padding : Int} {extent : Extent}
    {nested : Option LayoutResult} (h : m.Settled p cursor none) (hc : cursor ≤ offset) :
    m.Precedes p (valueSlot x index offset padding extent nested).placed where
  bits := by
    have hbits := h.bits
    simp only [Bitfield.running] at hbits
    simp only [startBit, valueSlot]
    omega
  apart _ := Int.le_trans h.flushed hc
  units _ _ hn := by simp [isBitfield, valueSlot] at hn

end MemberLayout.Settled

theorem settled_bitfieldSlot {x : Member} {placed : Bitfield.Placed} {place : Bitfield.Placement}
    (adv : placed.Advances p cursor unit place) :
    (bitfieldSlot x place).placed.Settled p placed.cursor placed.unit where
  bits := Int.le_of_eq adv.running_eq.symm
  plain h := by simp [MemberLayout.isBitfield, bitfieldSlot] at h
  flushed := adv.storage_end
  units hp _ := by
    obtain ⟨u, hu, hstart, hsize, -⟩ := adv.shared hp
    exact .inl ⟨u, hu, hstart.symm, hsize.symm⟩

theorem settled_valueSlot (x : Member) (index : Nat) (offset padding : Int) (extent : Extent)
    (nested : Option LayoutResult) :
    (valueSlot x index offset padding extent nested).placed.Settled p (offset + extent.size) none
    where
  bits := Int.le_refl _
  plain _ := Int.le_refl _
  flushed := Int.le_refl _
  units _ h := by simp [MemberLayout.isBitfield, valueSlot] at h

end Order

/-! ## Slots -/

/-- A member is sound by itself, and so is the layout of its type. -/
structure MemberLayout.Sound (p : Profile) (m : MemberLayout) : Prop where
  size_nonneg : 0 ≤ m.size
  bits : m.BitsFit
  nested : m.layout.isSome → ∃ b, m.type = .aggregate b
  laid : ∀ b n, m.type = .aggregate b → m.layout = some n → WellLaid p b n

/-- A slot at or after the start of its aggregate with all that it lists. -/
structure Slot.Sound (p : Profile) (t : Slot) : Prop where
  promotes : t.Promotes
  start : 0 ≤ t.placed.byteOffset
  placed : t.placed.Sound p
  promoted : ∀ f ∈ t.promoted, f.Sound p

section Slots

variable {p : Profile}

theorem sound_bitfieldSlot {x : Member} {cursor : Int} {unit : Option Bitfield.OpenUnit}
    {placed : Bitfield.Placed} {place : Bitfield.Placement} (hc : 0 ≤ cursor)
    (adv : placed.Advances p cursor unit place) : (bitfieldSlot x place).Sound p where
  promotes := ⟨rfl, by cases h : x.name <;> simp [bitfieldSlot, h], by simp [bitfieldSlot]⟩
  start := Int.le_trans hc (Int.le_trans adv.cursor_le adv.storage_start)
  placed := by
    have hw := adv.width_pos
    have hb := adv.bits
    refine ⟨?_, ?_, by simp [bitfieldSlot], by simp [bitfieldSlot]⟩
    · simp only [bitfieldSlot]
      omega
    · rintro b ⟨⟩
      exact ⟨hw, hb⟩
  promoted := by simp [bitfieldSlot]

/-- Promoted fields lie inside of the layout that they are promoted from. -/
theorem WellLaid.promoted_inside {a : Aggregate} {r : LayoutResult} (h : WellLaid p a r)
    (offset : Int) : ∀ f ∈ promotedFrom offset r,
      f.promoted = true ∧ offset ≤ f.byteOffset ∧ f.endOffset ≤ offset + r.size := by
  intro f hf
  obtain ⟨g, hg, rfl⟩ := List.mem_map.mp hf
  have hinside := h.shape.inside g (List.mem_filter.mp hg).1
  simp only [MemberLayout.endOffset] at hinside
  simp only [MemberLayout.translated, MemberLayout.endOffset]
  refine ⟨trivial, ?_, ?_⟩ <;> omega

/-- Promoted fields are as sound as the members that they come from. -/
theorem WellLaid.promoted_sound {a : Aggregate} {r : LayoutResult} (h : WellLaid p a r)
    (offset : Int) : ∀ f ∈ promotedFrom offset r, f.Sound p := by
  intro f hf
  obtain ⟨g, hg, rfl⟩ := List.mem_map.mp hf
  have hmem := (List.mem_filter.mp hg).1
  exact ⟨(h.shape.inside g hmem).2.1, h.shape.bits g hmem, h.shape.nested g hmem,
    fun b n hb hn => h.of_mem hmem hb hn⟩

theorem sound_valueSlot {x : Member} {cap : Option Int} {natural extent : Extent}
    {nested : Option LayoutResult} {offset : Int} (index : Nat) (padding : Int)
    (hsized : Sized (fun _ x => 0 ≤ x.size) (WellLaid p) x.type natural nested)
    (hextent : p.memberExtent x cap natural = .ok extent) (hoffset : 0 ≤ offset) :
    (valueSlot x index offset padding extent nested).Sound p := by
  have hextent_size : extent.size = natural.size := by
    rw [Profile.memberExtent_eq_ok hextent]
  have hplaced_size : 0 ≤ extent.size := hextent_size ▸ hsized.1
  cases nested with
  | none =>
    refine ⟨⟨rfl, ?fields, ?inside⟩, hoffset, ⟨hplaced_size, ?bits, ?nested, ?laid⟩, ?promoted⟩
    case fields => cases h : x.name <;> simp [valueSlot, h]
    case inside => cases h : x.name <;> simp [valueSlot, h]
    case bits => rintro b ⟨⟩
    case nested => simp [valueSlot]
    case laid => simp [valueSlot]
    case promoted => cases h : x.name <;> simp [valueSlot, h]
  | some r =>
    obtain ⟨a, ha, hr, hs, -⟩ := hsized.exists_aggregate
    have hinside := hr.promoted_inside offset
    rw [← hs, ← hextent_size] at hinside
    refine ⟨⟨rfl, rfl, ?inside⟩, hoffset, ⟨hplaced_size, ?bits, ?nested, ?laid⟩, ?promoted⟩
    case inside =>
      cases h : x.name with
      | none =>
        simp only [valueSlot, h]
        exact hinside
      | some name => simp [valueSlot, h]
    case bits => rintro b ⟨⟩
    case nested => exact fun _ => ⟨a, ha⟩
    case laid =>
      rintro b n hb hn
      cases hn
      obtain rfl : a = b := TypeNode.aggregate.inj (ha.symm.trans hb)
      exact hr
    case promoted =>
      cases h : x.name with
      | none => simpa only [valueSlot, h] using hr.promoted_sound offset
      | some name => simp [valueSlot, h]

end Slots

/-! ## Structs -/

/-- The name that a direct member is listed under. -/
def listedNames (slots : List Slot) : List (Option String) :=
  (slots.filter Slot.listed).map fun t => t.placed.name

/-- The names of the members that a layout reports. -/
def reportedNames (members : List Member) : List (Option String) :=
  (members.filter Member.isReported).map fun x => x.name

section Names

theorem listedNames_append (slots : List Slot) (t : Slot) :
    listedNames (slots ++ [t]) = listedNames slots ++ if t.listed then [t.placed.name] else [] := by
  cases h : t.listed <;> simp [listedNames, List.filter_append, h]

theorem reportedNames_append (members : List Member) (x : Member) :
    reportedNames (members ++ [x]) =
      reportedNames members ++ if x.isReported then [x.name] else [] := by
  cases h : x.isReported <;> simp [reportedNames, List.filter_append, h]

/-- A bitfield is reported when it has a name and a placement. -/
theorem isReported_bitfield {p : Profile} {x : Member} {cap : Option Int} {base : Primitive}
    {width : Json} {field : Bitfield.Field} {cursor : Int} {unit : Option Bitfield.OpenUnit}
    {placed : Bitfield.Placed} (type : x.type = .bitfield base width)
    (hfield : bitfieldOf p x cap base width = .ok field)
    (hplaced : Bitfield.place p field cursor unit = .ok placed) :
    x.isReported = (x.name.isSome && placed.placement.isSome) := by
  obtain ⟨natural, -, -, rfl⟩ := bitfieldOf_eq_ok hfield
  obtain ⟨w, rfl, hnone⟩ := Bitfield.placement_eq_none_iff hplaced
  simp only [Member.isReported, type, Json.number?]
  congr 1
  cases hp : placed.placement with
  | none => simp [hnone.mp hp]
  | some place =>
    have hw : w ≠ 0 := fun h => by simp [hnone.mpr h] at hp
    simpa using hw

theorem isReported_value {x : Member} (type : ∀ base width, x.type ≠ .bitfield base width) :
    x.isReported = true := by
  unfold Member.isReported
  split
  · rename_i base width h
    exact absurd h (type base width)
  · rfl

end Names

/-- The state between two members of a struct, of which those in `pre` are placed. -/
structure StructState.Sound (p : Profile) (pre : List Member) (s : StructState) : Prop where
  cursor_nonneg : 0 ≤ s.cursor
  consistent : Bitfield.Consistent p s.cursor s.unit
  ordered : (s.slots.map Slot.placed).Pairwise (MemberLayout.Precedes p)
  settled : ∀ t ∈ s.slots, t.placed.Settled p s.cursor s.unit
  slots : ∀ t ∈ s.slots, t.Sound p
  names : listedNames s.slots = reportedNames pre

/-- What a walk knows of the types of members when layouts are to be well formed. -/
abbrev SizedWell (p : Profile) : TypeNode → Extent → Option LayoutResult → Prop :=
  Sized (fun _ x => 0 ≤ x.size) (WellLaid p)

section Structs

variable {p : Profile} {cap : Option Int} {pre : List Member} {x : Member} {s t : StructState}

theorem StructState.sound_start : StructState.start.Sound p [] where
  cursor_nonneg := Int.le_refl 0
  consistent := trivial
  ordered := .nil
  settled := by simp [StructState.start]
  slots := by simp [StructState.start]
  names := rfl

/-- A slot that all others precede may follow them. -/
theorem StructState.Sound.push {slot : Slot} (h : s.Sound p pre)
    (hslots : t.slots = s.slots ++ [slot])
    (hcursor : 0 ≤ t.cursor) (hconsistent : Bitfield.Consistent p t.cursor t.unit)
    (hprecedes : ∀ o ∈ s.slots, o.placed.Precedes p slot.placed)
    (hkept : ∀ o ∈ s.slots, o.placed.Settled p t.cursor t.unit)
    (hsettled : slot.placed.Settled p t.cursor t.unit) (hsound : slot.Sound p)
    (hname : slot.placed.name = x.name) (hlisted : slot.listed = x.isReported) :
    t.Sound p (pre ++ [x]) where
  cursor_nonneg := hcursor
  consistent := hconsistent
  ordered := by
    rw [hslots, List.map_append, List.pairwise_append]
    refine ⟨h.ordered, by simp, ?_⟩
    intro m hm n hn
    obtain ⟨o, ho, rfl⟩ := List.mem_map.mp hm
    obtain rfl : n = slot.placed := by simpa using hn
    exact hprecedes o ho
  settled := by
    rw [hslots, List.forall_mem_append, List.forall_mem_singleton]
    exact ⟨hkept, hsettled⟩
  slots := by
    rw [hslots, List.forall_mem_append, List.forall_mem_singleton]
    exact ⟨h.slots, hsound⟩
  names := by rw [hslots, listedNames_append, reportedNames_append, h.names, hname, hlisted]

/-- A member that is no bitfield may follow at any byte from the end of a flush on. -/
theorem StructState.Sound.push_value {natural extent : Extent} {nested : Option LayoutResult}
    {offset padding : Int} (hs : s.Sound p pre) (hx : ∀ base width, x.type ≠ .bitfield base width)
    (hsized : SizedWell p x.type natural nested)
    (hextent : p.memberExtent x cap natural = .ok extent)
    (hoffset : (Bitfield.flush p s.cursor s.unit).cursor ≤ offset)
    (hslots : t.slots = s.slots ++ [valueSlot x s.count offset padding extent nested])
    (hcursor : t.cursor = offset + extent.size) (hunit : t.unit = none) :
    t.Sound p (pre ++ [x]) := by
  have hflush := Bitfield.le_cursor_flush p s.cursor s.unit
  have hstart : 0 ≤ offset := Int.le_trans hs.cursor_nonneg (Int.le_trans hflush hoffset)
  have hsound := sound_valueSlot s.count padding hsized hextent hstart
  have hsize : 0 ≤ extent.size := hsound.placed.size_nonneg
  have hclosed : ∀ o ∈ s.slots, o.placed.Settled p offset none := fun o ho =>
    (hs.settled o ho).close hs.consistent hoffset
  have hreported := isReported_value hx
  refine hs.push hslots ?cursor ?consistent ?precedes ?kept ?settled hsound rfl hreported.symm
  case cursor =>
    rw [hcursor]
    exact Int.add_nonneg hstart hsize
  case consistent =>
    rw [hunit]
    trivial
  case precedes =>
    intro o ho
    exact (hclosed o ho).precedes_value (Int.le_refl offset)
  case kept =>
    intro o ho
    rw [hcursor, hunit]
    exact (hclosed o ho).close trivial (Int.le_add_of_nonneg_right hsize)
  case settled =>
    rw [hcursor, hunit]
    exact settled_valueSlot x s.count offset padding extent nested

/-- **One member keeps a struct sound.** -/
theorem StructStep.sound (hs : s.Sound p pre) (h : StructStep p cap (SizedWell p) x s t) :
    t.Sound p (pre ++ [x]) := by
  have hflush := Bitfield.le_cursor_flush p s.cursor s.unit
  cases h with
  | skipped type open_ field_eq placed_eq placement =>
    obtain ⟨hunit, hle⟩ := Bitfield.unit_of_placement_eq_none placed_eq placement
    have hreported := isReported_bitfield type field_eq placed_eq
    refine ⟨?cursor, ?consistent, hs.ordered, ?settled, hs.slots, ?names⟩
    case cursor => exact Int.le_trans hs.cursor_nonneg (Int.le_trans hflush hle)
    case consistent =>
      rw [hunit]
      trivial
    case settled =>
      intro o ho
      rw [hunit]
      exact (hs.settled o ho).close hs.consistent hle
    case names =>
      rw [reportedNames_append, hreported, placement]
      simpa using hs.names
  | @bitfield base width field placed place type open_ field_eq placed_eq placement =>
    have adv := Bitfield.advances_of_place placed_eq placement hs.consistent
    have hreported := isReported_bitfield type field_eq placed_eq
    rw [placement, Option.isSome_some, Bool.and_true] at hreported
    have hsound := sound_bitfieldSlot (x := x) hs.cursor_nonneg adv
    refine hs.push rfl ?cursor adv.consistent ?precedes ?kept (settled_bitfieldSlot adv) hsound rfl
      hreported.symm
    case cursor => exact Int.le_trans hs.cursor_nonneg adv.cursor_le
    case precedes =>
      intro o ho
      exact (hs.settled o ho).precedes_bitfield adv
    case kept =>
      intro o ho
      exact (hs.settled o ho).place adv
  | @flexible element name natural extent offset type open_ named sized empty extent_eq offset_eq =>
    have hsize : extent.size = 0 := by rw [Profile.memberExtent_eq_ok extent_eq, empty]
    have hround := Number.le_roundUp (Bitfield.flush p s.cursor s.unit).cursor extent.alignment
    rw [← offset_eq] at hround
    -- The cursor stays where an open-ended array begins, which is also where it ends.
    apply hs.push_value (by simp [type]) sized extent_eq hround rfl _ rfl
    rw [hsize, Int.add_zero]
  | @value natural extent nested offset type open_ anonymous sized extent_eq offset_eq =>
    have hround := Number.le_roundUp (Bitfield.flush p s.cursor s.unit).cursor extent.alignment
    rw [← offset_eq] at hround
    exact hs.push_value (ne_bitfield type) sized extent_eq hround rfl rfl rfl

/-- All the members of a struct keep it sound. -/
theorem StructState.sound_of_walk {members : List Member}
    (h : Walk (StructStep p cap (SizedWell p)) members .start s) : s.Sound p members :=
  h.snoc_induction sound_start fun _ _ _ _ _ hu hstep => hstep.sound hu

end Structs

/-! ## Unions -/

/-- The state between two members of a union, of which those in `pre` are placed. -/
structure UnionState.Sound (p : Profile) (pre : List Member) (s : UnionState) : Prop where
  end_nonneg : 0 ≤ s.endOffset
  overlaid : ∀ t ∈ s.slots, t.placed.byteOffset = 0
  inside : ∀ t ∈ s.slots, t.placed.endOffset ≤ s.endOffset
  slots : ∀ t ∈ s.slots, t.Sound p
  names : listedNames s.slots = reportedNames pre

section Unions

variable {p : Profile} {cap : Option Int} {pre : List Member} {x : Member} {s t : UnionState}

theorem UnionState.sound_start : UnionState.start.Sound p [] where
  end_nonneg := Int.le_refl 0
  overlaid := by simp [UnionState.start]
  inside := by simp [UnionState.start]
  slots := by simp [UnionState.start]
  names := rfl

/-- A slot at the start of the union may be added, when the end reaches as far. -/
theorem UnionState.Sound.push {slot : Slot} (h : s.Sound p pre)
    (hslots : t.slots = s.slots ++ [slot]) (hzero : slot.placed.byteOffset = 0)
    (hend : t.endOffset = max s.endOffset slot.placed.size) (hsound : slot.Sound p)
    (hname : slot.placed.name = x.name) (hlisted : slot.listed = x.isReported) :
    t.Sound p (pre ++ [x]) where
  end_nonneg := hend ▸ Int.le_trans h.end_nonneg (Int.le_max_left _ _)
  overlaid := by
    rw [hslots, List.forall_mem_append, List.forall_mem_singleton]
    exact ⟨h.overlaid, hzero⟩
  inside := by
    rw [hslots, hend, List.forall_mem_append, List.forall_mem_singleton]
    constructor
    · intro o ho
      exact Int.le_trans (h.inside o ho) (Int.le_max_left _ _)
    · rw [MemberLayout.endOffset, hzero, Int.zero_add]
      exact Int.le_max_right _ _
  slots := by
    rw [hslots, List.forall_mem_append, List.forall_mem_singleton]
    exact ⟨h.slots, hsound⟩
  names := by rw [hslots, listedNames_append, reportedNames_append, h.names, hname, hlisted]

/-- **One member keeps a union sound.** -/
theorem UnionStep.sound (hs : s.Sound p pre) (h : UnionStep p cap (SizedWell p) x s t) :
    t.Sound p (pre ++ [x]) := by
  cases h with
  | skipped type field_eq placed_eq placement =>
    have hreported := isReported_bitfield type field_eq placed_eq
    refine ⟨hs.end_nonneg, hs.overlaid, hs.inside, hs.slots, ?_⟩
    rw [reportedNames_append, hreported, placement]
    simpa using hs.names
  | @bitfield base width field placed place type field_eq placed_eq placement =>
    have adv := Bitfield.advances_of_place placed_eq placement trivial
    have hreported := isReported_bitfield type field_eq placed_eq
    rw [placement, Option.isSome_some, Bool.and_true] at hreported
    refine hs.push rfl ?_ rfl ?_ rfl hreported.symm
    · exact (Bitfield.storage_of_place_zero placed_eq placement).1
    · exact sound_bitfieldSlot (Int.le_refl 0) adv
  | value type anonymous sized extent_eq =>
    have hsound := sound_valueSlot s.count 0 sized extent_eq (Int.le_refl 0)
    exact hs.push rfl rfl rfl hsound rfl (isReported_value (ne_bitfield type)).symm

/-- All the members of a union keep it sound. -/
theorem UnionState.sound_of_walk {members : List Member}
    (h : Walk (UnionStep p cap (SizedWell p)) members .start s) : s.Sound p members :=
  h.snoc_induction sound_start fun _ _ _ _ _ hu hstep => hstep.sound hu

end Unions

/-! ## Aggregates -/

section Listing

variable {p : Profile} {slots : List Slot}

/-- A member of a layout is that of a slot or one promoted from it. -/
theorem mem_members {m : MemberLayout} (h : m ∈ slots.flatMap Slot.members) :
    ∃ t ∈ slots, m = t.placed ∨ m ∈ t.promoted := by
  obtain ⟨t, ht, hm⟩ := List.mem_flatMap.mp h
  refine ⟨t, ht, ?_⟩
  unfold Slot.members at hm
  split at hm
  · exact List.mem_cons.mp hm
  · cases hm

/-- The direct members of a layout are those of the slots that are listed. -/
theorem direct_members (h : ∀ t ∈ slots, t.Promotes) :
    (slots.flatMap Slot.members).filter (fun m => !m.promoted) =
      (slots.filter Slot.listed).map Slot.placed := by
  induction slots with
  | nil => rfl
  | cons t slots ih =>
    have ht := h t List.mem_cons_self
    have hpromoted : t.promoted.filter (fun m => !m.promoted) = [] :=
      List.filter_eq_nil_iff.mpr fun f hf => by simp [(ht.inside f hf).1]
    rw [List.flatMap_cons, List.filter_append, ih fun o ho => h o (List.mem_cons_of_mem t ho)]
    cases hl : t.listed <;> simp [Slot.members, hl, ht.direct, hpromoted]

/-- A member of a sound slot lies between the start of the aggregate and the end of the slot. -/
theorem inside_of_sound {t : Slot} {m : MemberLayout} (ht : t.Sound p)
    (hm : m = t.placed ∨ m ∈ t.promoted) :
    m.Sound p ∧ 0 ≤ m.byteOffset ∧ m.endOffset ≤ t.placed.endOffset := by
  rcases hm with rfl | hm
  · exact ⟨ht.placed, ht.start, Int.le_refl _⟩
  · obtain ⟨hstart, hend⟩ := (ht.promotes.inside m hm).2
    exact ⟨ht.promoted m hm, Int.le_trans ht.start hstart, hend⟩

/-- A relation between all members that come before one another relates any two of them one way or
the other. -/
theorem precedes_or_eq {members : List MemberLayout}
    (h : members.Pairwise (MemberLayout.Precedes p)) {m n : MemberLayout} (hm : m ∈ members)
    (hn : n ∈ members) : m = n ∨ m.Precedes p n ∨ n.Precedes p m := by
  refine List.Pairwise.forall_of_forall_of_flip
    (R := fun m n => m = n ∨ m.Precedes p n ∨ n.Precedes p m) (fun _ _ => .inl rfl) ?_ ?_ hm hn
  · exact h.imp fun h => .inr (.inl h)
  · exact h.imp fun h => .inr (.inr h)

end Listing

/-- What a walk leaves of the members of an aggregate of a kind. -/
structure Sequenced.Sound (p : Profile) (kind : AggregateKind) (members : List Member)
    (s : Sequenced) : Prop where
  end_nonneg : 0 ≤ s.endOffset
  ordered : kind = .struct → (s.slots.map Slot.placed).Pairwise (MemberLayout.Precedes p)
  overlaid : kind = .union → ∀ t ∈ s.slots, t.placed.byteOffset = 0
  inside : ∀ t ∈ s.slots, t.placed.endOffset ≤ s.endOffset
  slots : ∀ t ∈ s.slots, t.Sound p
  names : listedNames s.slots = reportedNames members

section Aggregates

variable {p : Profile} {cap : Option Int} {kind : AggregateKind} {members : List Member}
  {s : Sequenced}

theorem Sequenced.sound_of_comes (h : s.Comes p cap (SizedWell p) kind members) :
    s.Sound p kind members := by
  cases h with
  | struct kind_eq walk =>
    have hs := StructState.sound_of_walk walk
    refine ⟨?_, fun _ => hs.ordered, ?_, ?_, hs.slots, hs.names⟩
    · exact Int.le_trans hs.cursor_nonneg (Bitfield.le_cursor_flush _ _ _)
    · simp [kind_eq]
    · exact fun t ht => (hs.settled t ht).flushed
  | union kind_eq walk =>
    have hs := UnionState.sound_of_walk walk
    exact ⟨hs.end_nonneg, by simp [kind_eq], fun _ => hs.overlaid, hs.inside, hs.slots, hs.names⟩

/-- **Sound members make up a well-formed layout.** -/
theorem Sequenced.Sound.wellLaid {a : Aggregate} {r : LayoutResult}
    (h : s.Sound p a.kind a.members) (hr : a.finish s = .ok r) : WellLaid p a r := by
  obtain ⟨alignment, -, rfl⟩ := Except.map_eq_ok.mp hr
  have hsize := Number.le_roundUp s.endOffset alignment
  have hdirect := direct_members fun t ht => (h.slots t ht).promotes
  have hmember : ∀ m ∈ s.members,
      m.Sound p ∧ 0 ≤ m.byteOffset ∧ m.endOffset ≤ Number.roundUp s.endOffset alignment := by
    intro m hm
    obtain ⟨t, ht, hm⟩ := mem_members hm
    obtain ⟨hsound, hstart, hend⟩ := inside_of_sound (h.slots t ht) hm
    exact ⟨hsound, hstart, Int.le_trans hend (Int.le_trans (h.inside t ht) hsize)⟩
  have hsub : ((s.slots.filter Slot.listed).map Slot.placed).Sublist (s.slots.map Slot.placed) :=
    List.filter_sublist.map Slot.placed
  refine .intro
    { kind := rfl
      declared := ?declared
      ordered := ?ordered
      apart := ?apart
      units := ?units
      overlaid := ?overlaid
      bits := fun m hm => (hmember m hm).1.bits
      size_nonneg := Int.le_trans h.end_nonneg hsize
      inside := fun m hm => ⟨(hmember m hm).2.1, (hmember m hm).1.size_nonneg, (hmember m hm).2.2⟩
      promotion := ⟨s.slots, rfl, fun t ht => (h.slots t ht).promotes⟩
      nested := fun m hm => (hmember m hm).1.nested }
    fun m hm => (hmember m hm).1.laid
  case declared =>
    rw [LayoutResult.direct, Sequenced.members, hdirect, List.map_map]
    exact h.names
  case ordered =>
    intro hk
    rw [LayoutResult.direct, Sequenced.members, hdirect]
    exact ((h.ordered hk).imp fun h => h.bits).sublist hsub
  -- Any two direct members of a struct are the same or one comes before the other.
  case apart =>
    intro hk m hm n hn hmb hnb
    rw [LayoutResult.direct, Sequenced.members, hdirect] at hm hn
    rcases precedes_or_eq (h.ordered hk) (hsub.mem hm) (hsub.mem hn) with rfl | hmn | hnm
    · rw [hmb] at hnb
      cases hnb
    · exact .inl (hmn.apart (.inr hnb))
    · exact .inr (hnm.apart (.inl hnb))
  case units =>
    intro hk hp m hm n hn hmb hnb
    rw [LayoutResult.direct, Sequenced.members, hdirect] at hm hn
    rcases precedes_or_eq (h.ordered hk) (hsub.mem hm) (hsub.mem hn) with rfl | hmn | hnm
    · exact .inl ⟨rfl, rfl⟩
    · exact (hmn.units hp hmb hnb).imp id .inl
    · exact (hnm.units hp hnb hmb).imp (fun h => ⟨h.1.symm, h.2.symm⟩) .inr
  case overlaid =>
    intro hk m hm
    rw [LayoutResult.direct, Sequenced.members, hdirect] at hm
    obtain ⟨t, ht, rfl⟩ := List.mem_map.mp hm
    exact h.overlaid hk t (List.mem_filter.mp ht).1

end Aggregates

/-! ## All layouts -/

theorem Profile.primitiveExtent_size_pos {p : Profile} {q : Primitive} {x : Extent}
    (h : p.primitiveExtent q = .ok x) : 0 < x.size := by
  unfold primitiveExtent at h
  split at h
  · cases h
  · rename_i size _
    split at h
    · cases h
    · obtain ⟨alignment, -, rfl⟩ := Except.map_eq_ok.mp h
      exact Int.not_le.mp ‹_›

/-- **The layouts that a walk makes up are well formed.** -/
theorem wellLaid_invariant (p : Profile) :
    LayoutInvariant p (fun _ x => 0 ≤ x.size) (WellLaid p) where
  primitive h := Int.le_of_lt (Profile.primitiveExtent_size_pos h)
  array hx hcount := Int.mul_nonneg hx (Int.le_of_lt (arrayCount_pos hcount))
  flexible _ _ := Int.le_refl 0
  aggregate h := h.shape.size_nonneg
  compute _ hcomes hfinish := (Sequenced.sound_of_comes hcomes).wellLaid hfinish

/-- The members declared in a struct are those slots that are listed. -/
theorem direct_of_sequenceStruct {p : Profile} {cap : Option Int} {a : Aggregate} {s : Sequenced}
    {r : LayoutResult}
    (h : sequenceStruct Setting.pure p cap (measureMembers Setting.pure p a.members) = .ok s)
    (hr : a.finish s = .ok r) : r.direct = (s.slots.filter Slot.listed).map Slot.placed := by
  have hsequence : sequenceMembers Setting.pure p cap .struct
      (measureMembers Setting.pure p a.members) = .ok s := h
  have hsound := Sequenced.sound_of_comes ((wellLaid_invariant p).comes hsequence)
  obtain ⟨alignment, -, rfl⟩ := Except.map_eq_ok.mp hr
  exact direct_members fun t ht => (hsound.slots t ht).promotes

end RecordLayout
