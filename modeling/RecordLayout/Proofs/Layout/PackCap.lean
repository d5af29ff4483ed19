import Mathlib.Data.Int.Order.Basic
import Mathlib.Data.List.Forall2
import Mathlib.Order.MinMax
import RecordLayout.Proofs.Layout.Progress
import RecordLayout.Proofs.Layout.Tightening

/-!
# Tightening a pack

A tighter pack moves nothing outwards.  An aggregate lays out under one pack exactly when it does
under another; under the tighter one its size, its alignment and the start of each member are at
most what they are under the looser one.

The two layouts are computed side by side.  Both runs see the same members with the same natural
extents and differ in the cap on alignments only, so they fail together.  As all alignments are
powers of two, the tighter one of a pair divides the looser one, and rounding to it ends no further
out.  The bitfield allocator is compared by `Bitfield.Tighter`.

## Main definitions

* `Tightens` compares caps;
* `LayoutResult.Inward` says that a layout is nowhere further out than another one.

## Main results

* `layoutOf_pack_inward`: a tighter pack moves nothing outwards.
-/

namespace RecordLayout

open Number (isPowerOfTwo)

/-! ## Caps -/

/-- A cap is as tight as another one, if there is another one.  Both are powers of two. -/
structure Tightens (tight : Int) (loose : Option Int) : Prop where
  power : isPowerOfTwo tight = true
  power' : ∀ cap ∈ loose, isPowerOfTwo cap = true
  le : ∀ cap ∈ loose, tight ≤ cap

/-- Extents of one size, of which the first is no more aligned. -/
structure Extent.Tighter (x y : Extent) : Prop where
  size : x.size = y.size
  dvd : x.alignment ∣ y.alignment
  pos : 0 < y.alignment

theorem Extent.Tighter.le {x y : Extent} (h : x.Tighter y) : x.alignment ≤ y.alignment :=
  Int.le_of_dvd h.pos h.dvd

theorem capAlignment_le_self (n : Int) (cap : Option Int) : capAlignment n cap ≤ n := by
  cases cap with
  | none => exact Int.le_refl n
  | some c => exact Int.min_le_left n c

namespace Tightens

variable {tight : Int} {loose : Option Int}

theorem power_some (h : Tightens tight loose) : ∀ cap ∈ some tight, isPowerOfTwo cap = true := by
  rintro cap ⟨⟩
  exact h.power

/-- The tighter cap may be put on top of the looser one. -/
theorem capAlignment_eq (h : Tightens tight loose) (n : Int) :
    capAlignment n (some tight) = min (capAlignment n loose) tight := by
  cases loose with
  | none => rfl
  | some cap =>
    have hle := h.le cap rfl
    simp only [capAlignment]
    omega

theorem capAlignment_le (h : Tightens tight loose) (n : Int) :
    capAlignment n (some tight) ≤ capAlignment n loose := by
  rw [h.capAlignment_eq]
  exact Int.min_le_left _ _

/-- The caps on a member: a member that is packed itself has the same cap under both. -/
theorem capAlignment_member (h : Tightens tight loose) (x : Member) (n : Int) :
    capAlignment n (x.cap (some tight)) ≤ capAlignment n (x.cap loose) ∧
      capAlignment n (x.cap (some tight)) = min (capAlignment n (x.cap loose)) tight := by
  unfold Member.cap
  split
  · have hpos := Number.pos_of_isPowerOfTwo h.power
    simp only [capAlignment]
    omega
  · exact ⟨h.capAlignment_le n, h.capAlignment_eq n⟩

theorem raisedAlignment_le (h : Tightens tight loose) (p : Profile) (x : Member) (n : Int) :
    p.raisedAlignment x (some tight) n ≤ p.raisedAlignment x loose n := by
  unfold Profile.raisedAlignment
  split
  · exact (h.capAlignment_member x n).1
  · rename_i requested _
    split
    · have hle := (h.capAlignment_member x n).1
      omega
    · exact (h.capAlignment_member x (max n requested)).1

/-- A member has an extent under both caps or under none. -/
theorem memberExtent_alike (h : Tightens tight loose) (p : Profile) (x : Member) {natural : Extent}
    (hnatural : isPowerOfTwo natural.alignment = true) :
    (p.memberExtent x (some tight) natural).Alike Extent.Tighter
      (p.memberExtent x loose natural) := by
  rw [Profile.memberExtent_eq, Profile.memberExtent_eq]
  refine (Except.Alike.same (p.checkRequested x)).returned.map ?_
  rintro checked _ ⟨rfl, hcheck, -⟩
  have hpower := Profile.isPowerOfTwo_raisedAlignment hcheck h.power_some hnatural
  have hpower' := Profile.isPowerOfTwo_raisedAlignment hcheck h.power' hnatural
  refine ⟨rfl, ?_, Number.pos_of_isPowerOfTwo hpower'⟩
  exact Number.dvd_of_le hpower hpower' (h.raisedAlignment_le p x natural.alignment)

theorem bitfieldOf_alike (h : Tightens tight loose) {p : Profile} (hp : p.IsAligned) (x : Member)
    (base : Primitive) (width : Json) :
    (bitfieldOf p x (some tight) base width).Alike (Bitfield.Field.Tighter tight)
      (bitfieldOf p x loose base width) := by
  unfold bitfieldOf
  cases hr : x.attributes.requested? with
  | some requested => exact .error trivial
  | none =>
    refine (Except.Alike.same (p.primitiveExtent base)).returned.bind ?_
    rintro natural _ ⟨rfl, hnatural, -⟩
    have hpower := p.isPowerOfTwo_primitiveExtent hp hnatural
    refine .ok ⟨rfl, rfl, rfl, (h.capAlignment_member x _).2, ?_, ?_, ?_⟩
    · exact capAlignment_le_self _ _
    · exact isPowerOfTwo_capAlignment (isPowerOfTwo_memberCap x h.power_some) hpower
    · exact isPowerOfTwo_capAlignment (isPowerOfTwo_memberCap x h.power') hpower

end Tightens

/-! ## Layouts -/

/-- A member is the same as another one, and starts no further out. -/
structure MemberLayout.Inward (fill : FillDirection) (m n : MemberLayout) : Prop where
  key : m.key = n.key
  name : m.name = n.name
  type : m.type = n.type
  promoted : m.promoted = n.promoted
  layout : m.layout = n.layout
  width : m.bits.map BitRange.width = n.bits.map BitRange.width
  /-- The allocation bit of a bitfield, eight times the offset of any other member. -/
  start : m.startBit fill ≤ n.startBit fill
  byteOffset : m.isBitfield = false → m.byteOffset ≤ n.byteOffset

/-- A layout is nowhere further out than another one of the same members. -/
structure LayoutResult.Inward (fill : FillDirection) (r t : LayoutResult) : Prop where
  size : r.size ≤ t.size
  alignment : r.alignment ≤ t.alignment
  members : List.Forall₂ (MemberLayout.Inward fill) r.members t.members

/-- A slot is no further out than another one, and neither are the fields promoted from it. -/
structure Slot.Inward (fill : FillDirection) (a b : Slot) : Prop where
  placed : a.placed.Inward fill b.placed
  promoted : List.Forall₂ (MemberLayout.Inward fill) a.promoted b.promoted
  listed : a.listed = b.listed

section Slots

variable {fill : FillDirection}

/-- A field moves with the member that it is promoted from. -/
theorem MemberLayout.translated_inward {base base' : Int} (h : base ≤ base') (m : MemberLayout) :
    (m.translated base).Inward fill (m.translated base') := by
  refine ⟨rfl, rfl, rfl, rfl, rfl, rfl, ?_, fun _ => ?_⟩
  · simp only [startBit, translated]
    split
    · omega
    · cases fill <;> simp only [Bitfield.allocationBit] <;> omega
  · exact Int.add_le_add_left h m.byteOffset

theorem promotedFrom_inward {offset offset' : Int} (h : offset ≤ offset') (nested : LayoutResult) :
    List.Forall₂ (MemberLayout.Inward fill) (promotedFrom offset nested)
      (promotedFrom offset' nested) := by
  unfold promotedFrom
  rw [List.forall₂_map_left_iff, List.forall₂_map_right_iff, List.forall₂_same]
  exact fun m _ => m.translated_inward h

theorem valueSlot_inward (x : Member) (index : Nat) {offset offset' : Int} (h : offset ≤ offset')
    (padding padding' : Int) (extent extent' : Extent) (nested : Option LayoutResult) :
    (valueSlot x index offset padding extent nested).Inward fill
      (valueSlot x index offset' padding' extent' nested) := by
  refine ⟨⟨rfl, rfl, rfl, rfl, rfl, rfl, ?_, fun _ => h⟩, ?_, rfl⟩
  · simp only [MemberLayout.startBit, valueSlot]
    omega
  · simp only [valueSlot]
    split
    · exact promotedFrom_inward h _
    · exact .nil

theorem bitfieldSlot_inward (x : Member) {place place' : Bitfield.Placement}
    (h : place.Tighter fill place') :
    (bitfieldSlot x place).Inward fill (bitfieldSlot x place') := by
  refine ⟨⟨rfl, rfl, rfl, rfl, rfl, ?_, h.start, ?_⟩, .nil, rfl⟩
  · simp only [bitfieldSlot, Option.map_some, h.width]
  · rintro ⟨⟩

theorem Slot.Inward.members {a b : Slot} (h : a.Inward fill b) :
    List.Forall₂ (MemberLayout.Inward fill) a.members b.members := by
  unfold Slot.members
  rw [h.listed]
  split
  · exact .cons h.placed h.promoted
  · exact .nil

/-- One more slot. -/
theorem Slot.Inward.push {slots slots' : List Slot} {a b : Slot} (h : a.Inward fill b)
    (hslots : List.Forall₂ (Slot.Inward fill) slots slots') :
    List.Forall₂ (Slot.Inward fill) (slots ++ [a]) (slots' ++ [b]) :=
  List.rel_append hslots (.cons h .nil)

end Slots

/-! ## Structs -/

/-- How the states of two runs over the members of a struct stand. -/
structure StructState.Inward (p : Profile) (tight : Int) (s t : StructState) : Prop where
  slots : List.Forall₂ (Slot.Inward p.fill) s.slots t.slots
  count : s.count = t.count
  flexible : s.flexible = t.flexible
  unit : Bitfield.Tighter p tight s.cursor s.unit t.cursor t.unit
  consistent : Bitfield.Consistent p s.cursor s.unit
  consistent' : Bitfield.Consistent p t.cursor t.unit
  alignment : s.alignment ≤ t.alignment

section Structs

variable {p : Profile} {tight : Int} {loose : Option Int} {s t : StructState} {x : Member}

/-- Closing the open units moves nothing outwards. -/
theorem StructState.Inward.flush_le (h : s.Inward p tight t) :
    (Bitfield.flush p s.cursor s.unit).cursor ≤ (Bitfield.flush p t.cursor t.unit).cursor :=
  h.unit.flush_le h.consistent h.consistent'

theorem StructState.Inward.next_count (h : s.Inward p tight t) : s.count + 1 = t.count + 1 :=
  congrArg (· + 1) h.count

theorem StructState.inward_start : StructState.start.Inward p tight .start :=
  ⟨.nil, rfl, rfl, .closed (Int.le_refl 0), trivial, trivial, Int.le_refl 1⟩

/-- Notes are taken or not. -/
theorem note_alike {messages messages' : List String} :
    (Setting.pure.note messages).Alike (fun _ _ => True) (Setting.pure.note messages') :=
  .ok trivial

theorem raisedBy_le {place place' : Bitfield.Placement} {n n' : Int} (hn : n ≤ n')
    (hplace : place.alignment ≤ place'.alignment) :
    raisedBy p x place n ≤ raisedBy p x place' n' := by
  unfold raisedBy
  split <;> omega

theorem placeBitfield_alike (ht : Tightens tight loose) (hp : p.IsAligned)
    (hs : s.Inward p tight t) (base : Primitive) (width : Json) :
    (placeBitfield Setting.pure p (some tight) s x base width).Alike (StructState.Inward p tight)
      (placeBitfield Setting.pure p loose t x base width) := by
  simp only [placeBitfield, Setting.pure_lift]
  refine (ht.bitfieldOf_alike hp x base width).bind fun f g hfield => ?_
  have hplace := Bitfield.place_alike hfield hs.unit hs.consistent hs.consistent'
  refine hplace.returned.bind fun placed placed' hplaced => ?_
  obtain ⟨htighter, hok, hok'⟩ := hplaced
  have hcons := Bitfield.consistent_of_place hok hs.consistent
  have hcons' := Bitfield.consistent_of_place hok' hs.consistent'
  refine note_alike.bind fun _ _ _ => ?_
  obtain ⟨placement, cursor, unit, notes⟩ := placed
  obtain ⟨placement', cursor', unit', notes'⟩ := placed'
  obtain ⟨hunit, hplacement⟩ := htighter
  cases hplacement with
  | none => exact .ok ⟨hs.slots, hs.next_count, hs.flexible, hunit, hcons, hcons', hs.alignment⟩
  | some hplacement =>
    have hslot := bitfieldSlot_inward x hplacement
    refine .ok ⟨hslot.push hs.slots, hs.next_count, hs.flexible, hunit, hcons, hcons', ?_⟩
    apply raisedBy_le hs.alignment
    rw [Bitfield.alignment_of_place hok rfl, Bitfield.alignment_of_place hok' rfl]
    exact hfield.alignment_le

/-- The natural extent of a member is the same in both runs. -/
theorem extent_alike (hp : p.IsAligned) (hx : ∀ base width, x.type ≠ .bitfield base width) :
    (x.measured Setting.pure p).measure.extent.Alike
      (fun n n' => n = n' ∧ isPowerOfTwo n.alignment = true)
      (x.measured Setting.pure p).measure.extent := by
  obtain ⟨type, name, attributes⟩ := x
  exact .refl (fun _ => trivial) fun _ hn => ⟨rfl, (aligned_invariant hp).of_extent hx hn⟩

theorem placeFlexible_alike (ht : Tightens tight loose) (hp : p.IsAligned)
    (hs : s.Inward p tight t) (hx : ∀ base width, x.type ≠ .bitfield base width) :
    (placeFlexible Setting.pure p (some tight) s (x.measured Setting.pure p)).Alike
      (StructState.Inward p tight)
      (placeFlexible Setting.pure p loose t (x.measured Setting.pure p)) := by
  simp only [placeFlexible, Setting.pure_lift, Member.member_measured]
  refine note_alike.bind fun _ _ _ => ?_
  refine (extent_alike hp hx).bind ?_
  rintro natural _ ⟨rfl, hnatural⟩
  refine (ht.memberExtent_alike p x hnatural).bind fun extent extent' hextent => ?_
  have hoffset := Number.roundUp_le_roundUp hs.flush_le hextent.dvd hextent.pos
  cases x.name with
  | none => exact .error trivial
  | some name =>
    refine .ok ⟨?_, hs.next_count, rfl, .closed hoffset, trivial, trivial, ?_⟩
    · rw [hs.count]
      exact (valueSlot_inward x t.count hoffset _ _ _ _ none).push hs.slots
    · exact max_le_max hs.alignment hextent.le

theorem placeValue_alike (ht : Tightens tight loose) (hp : p.IsAligned)
    (hs : s.Inward p tight t) (hx : ∀ base width, x.type ≠ .bitfield base width) :
    (placeValue Setting.pure p (some tight) s (x.measured Setting.pure p)).Alike
      (StructState.Inward p tight)
      (placeValue Setting.pure p loose t (x.measured Setting.pure p)) := by
  simp only [placeValue, Setting.pure_lift, Member.member_measured]
  refine note_alike.bind fun _ _ _ => ?_
  refine (extent_alike hp hx).bind ?_
  rintro natural _ ⟨rfl, hnatural⟩
  refine (ht.memberExtent_alike p x hnatural).bind fun extent extent' hextent => ?_
  have hoffset := Number.roundUp_le_roundUp hs.flush_le hextent.dvd hextent.pos
  have hsize := hextent.size
  refine (Except.Alike.same (nestedLayout Setting.pure (x.measured Setting.pure p))).bind ?_
  rintro nested _ rfl
  refine .ok ⟨?_, hs.next_count, hs.flexible, .closed ?_, trivial, trivial, ?_⟩
  · rw [hs.count]
    exact (valueSlot_inward x t.count hoffset _ _ _ _ nested).push hs.slots
  · simp only
    omega
  · exact max_le_max hs.alignment hextent.le

/-- **One member keeps the runs together.** -/
theorem placeInStruct_alike (ht : Tightens tight loose) (hp : p.IsAligned)
    (hs : s.Inward p tight t) (x : Member) :
    (placeInStruct Setting.pure p (some tight) s (x.measured Setting.pure p)).Alike
      (StructState.Inward p tight)
      (placeInStruct Setting.pure p loose t (x.measured Setting.pure p)) := by
  unfold placeInStruct
  rw [Member.member_measured, hs.flexible]
  refine Failure.within_rel (fun _ _ _ => trivial) ?_
  cases t.flexible with
  | some name => exact .error trivial
  | none =>
    cases hx : x.type with
    | bitfield base width => exact placeBitfield_alike ht hp hs base width
    | flexibleArray e => exact placeFlexible_alike ht hp hs (by simp [hx])
    | primitive | aggregate | array | incomplete | unknown =>
      exact placeValue_alike ht hp hs (by simp [hx])

/-- How the members of an aggregate stand after two runs. -/
structure Sequenced.Inward (fill : FillDirection) (s t : Sequenced) : Prop where
  slots : List.Forall₂ (Slot.Inward fill) s.slots t.slots
  endOffset : s.endOffset ≤ t.endOffset
  alignment : s.alignment ≤ t.alignment

theorem sequenceStruct_alike (ht : Tightens tight loose) (hp : p.IsAligned)
    (members : List Member) :
    (sequenceStruct Setting.pure p (some tight) (measureMembers Setting.pure p members)).Alike
      (Sequenced.Inward p.fill)
      (sequenceStruct Setting.pure p loose (measureMembers Setting.pure p members)) := by
  unfold sequenceStruct
  have hfold : (List.foldlM (placeInStruct Setting.pure p (some tight)) .start
      (measureMembers Setting.pure p members)).Alike (StructState.Inward p tight)
      (List.foldlM (placeInStruct Setting.pure p loose) .start
        (measureMembers Setting.pure p members)) := by
    rw [measureMembers_eq_map, List.foldlM_map, List.foldlM_map]
    refine .foldlM (P := Eq) ?_ (List.forall₂_same.mpr fun _ _ => rfl) StructState.inward_start
    rintro x _ s t rfl hs
    exact placeInStruct_alike ht hp hs x
  refine hfold.bind fun s t hs => ?_
  exact note_alike.bind fun _ _ _ => .ok ⟨hs.slots, hs.flush_le, hs.alignment⟩

end Structs

/-! ## Unions -/

/-- How the states of two runs over the members of a union stand. -/
structure UnionState.Inward (p : Profile) (s t : UnionState) : Prop where
  slots : List.Forall₂ (Slot.Inward p.fill) s.slots t.slots
  count : s.count = t.count
  endOffset : s.endOffset ≤ t.endOffset
  alignment : s.alignment ≤ t.alignment

section Unions

variable {p : Profile} {tight : Int} {loose : Option Int} {s t : UnionState} {x : Member}

theorem UnionState.inward_start : UnionState.start.Inward p .start :=
  ⟨.nil, rfl, Int.le_refl 0, Int.le_refl 1⟩

theorem UnionState.Inward.next_count (h : s.Inward p t) : s.count + 1 = t.count + 1 :=
  congrArg (· + 1) h.count

theorem overlayBitfield_alike (ht : Tightens tight loose) (hp : p.IsAligned)
    (hs : s.Inward p t) (base : Primitive) (width : Json) :
    (overlayBitfield Setting.pure p (some tight) s x base width).Alike (UnionState.Inward p)
      (overlayBitfield Setting.pure p loose t x base width) := by
  simp only [overlayBitfield, Setting.pure_lift]
  refine (ht.bitfieldOf_alike hp x base width).bind fun f g hfield => ?_
  have hstart : Bitfield.Tighter p tight 0 none 0 none := .closed (Int.le_refl 0)
  have hplace := Bitfield.place_alike hfield hstart trivial trivial
  refine hplace.returned.bind fun placed placed' hplaced => ?_
  obtain ⟨htighter, hok, hok'⟩ := hplaced
  refine note_alike.bind fun _ _ _ => ?_
  obtain ⟨placement, cursor, unit, notes⟩ := placed
  obtain ⟨placement', cursor', unit', notes'⟩ := placed'
  obtain ⟨-, hplacement⟩ := htighter
  cases hplacement with
  | none => exact .ok ⟨hs.slots, hs.next_count, hs.endOffset, hs.alignment⟩
  | @some place place' hplacement =>
    -- At the start of a union the storage depends on the width and the base type only.
    have hstorage : place.unitSize = place'.unitSize := by
      rw [(Bitfield.storage_of_place_zero hok rfl).2, (Bitfield.storage_of_place_zero hok' rfl).2,
        hplacement.width, hfield.size]
    refine .ok ⟨(bitfieldSlot_inward x hplacement).push hs.slots, hs.next_count, ?_, ?_⟩
    · exact max_le_max hs.endOffset (Int.le_of_eq hstorage)
    · apply raisedBy_le hs.alignment
      rw [Bitfield.alignment_of_place hok rfl, Bitfield.alignment_of_place hok' rfl]
      exact hfield.alignment_le

theorem overlayValue_alike (ht : Tightens tight loose) (hp : p.IsAligned)
    (hs : s.Inward p t) (hx : ∀ base width, x.type ≠ .bitfield base width) :
    (overlayValue Setting.pure p (some tight) s (x.measured Setting.pure p)).Alike
      (UnionState.Inward p)
      (overlayValue Setting.pure p loose t (x.measured Setting.pure p)) := by
  simp only [overlayValue, Setting.pure_lift, Member.member_measured]
  refine (extent_alike hp hx).bind ?_
  rintro natural _ ⟨rfl, hnatural⟩
  refine (ht.memberExtent_alike p x hnatural).bind fun extent extent' hextent => ?_
  refine (Except.Alike.same (nestedLayout Setting.pure (x.measured Setting.pure p))).bind ?_
  rintro nested _ rfl
  refine .ok ⟨?_, hs.next_count, ?_, max_le_max hs.alignment hextent.le⟩
  · rw [hs.count]
    exact (valueSlot_inward x t.count (Int.le_refl 0) _ _ _ _ nested).push hs.slots
  · exact max_le_max hs.endOffset (Int.le_of_eq hextent.size)

/-- **One member keeps the runs together.** -/
theorem placeInUnion_alike (ht : Tightens tight loose) (hp : p.IsAligned)
    (hs : s.Inward p t) (x : Member) :
    (placeInUnion Setting.pure p (some tight) s (x.measured Setting.pure p)).Alike
      (UnionState.Inward p)
      (placeInUnion Setting.pure p loose t (x.measured Setting.pure p)) := by
  unfold placeInUnion
  rw [Member.member_measured]
  refine Failure.within_rel (fun _ _ _ => trivial) ?_
  cases hx : x.type with
  | bitfield base width => exact overlayBitfield_alike ht hp hs base width
  | flexibleArray e => exact .error trivial
  | primitive | aggregate | array | incomplete | unknown =>
    exact overlayValue_alike ht hp hs (by simp [hx])

theorem sequenceUnion_alike (ht : Tightens tight loose) (hp : p.IsAligned)
    (members : List Member) :
    (sequenceUnion Setting.pure p (some tight) (measureMembers Setting.pure p members)).Alike
      (Sequenced.Inward p.fill)
      (sequenceUnion Setting.pure p loose (measureMembers Setting.pure p members)) := by
  unfold sequenceUnion
  have hfold : (List.foldlM (placeInUnion Setting.pure p (some tight)) .start
      (measureMembers Setting.pure p members)).Alike (UnionState.Inward p)
      (List.foldlM (placeInUnion Setting.pure p loose) .start
        (measureMembers Setting.pure p members)) := by
    rw [measureMembers_eq_map, List.foldlM_map, List.foldlM_map]
    refine .foldlM (P := Eq) ?_ (List.forall₂_same.mpr fun _ _ => rfl) UnionState.inward_start
    rintro x _ s t rfl hs
    exact placeInUnion_alike ht hp hs x
  exact hfold.bind fun s t hs => .ok ⟨hs.slots, hs.endOffset, hs.alignment⟩

end Unions

/-! ## Aggregates -/

section Aggregates

variable {p : Profile} {tight : Int} {loose : Option Int}

theorem sequenceMembers_alike (ht : Tightens tight loose) (hp : p.IsAligned)
    (kind : AggregateKind) (members : List Member) :
    (sequenceMembers Setting.pure p (some tight) kind
        (measureMembers Setting.pure p members)).Alike (Sequenced.Inward p.fill)
      (sequenceMembers Setting.pure p loose kind (measureMembers Setting.pure p members)) := by
  cases kind with
  | struct => exact sequenceStruct_alike ht hp members
  | union => exact sequenceUnion_alike ht hp members

/-- Rounding up to the alignment moves nothing outwards. -/
theorem Aggregate.finish_alike {fill : FillDirection} (a : Aggregate) {s t : Sequenced}
    (h : s.Inward fill t) (hs : isPowerOfTwo s.alignment = true)
    (ht : isPowerOfTwo t.alignment = true) :
    (a.finish s).Alike (LayoutResult.Inward fill) (a.finish t) := by
  have halignment : (a.alignmentFrom s.alignment).Alike (· ≤ ·) (a.alignmentFrom t.alignment) := by
    unfold alignmentFrom
    cases a.attributes.requested? with
    | none => exact .ok h.alignment
    | some requested =>
      refine (Except.Alike.same _).map fun _ _ _ => ?_
      exact max_le_max h.alignment (Int.le_refl requested)
  refine halignment.returned.map fun m n hmn => ?_
  obtain ⟨hle, hm, hn⟩ := hmn
  have hpower := a.isPowerOfTwo_alignmentFrom hm hs
  have hpower' := a.isPowerOfTwo_alignmentFrom hn ht
  refine ⟨?_, hle, ?_⟩
  · exact Number.roundUp_le_roundUp h.endOffset (Number.dvd_of_le hpower hpower' hle)
      (Number.pos_of_isPowerOfTwo hpower')
  · exact List.rel_flatMap h.slots fun _ _ hslot => hslot.members

/-- An aggregate under another pack. -/
def Aggregate.withPack (a : Aggregate) (pack : Option Int) : Aggregate :=
  { a with pack := pack.map Json.int }

theorem Aggregate.packCap_withPack {a : Aggregate} (ha : a.attributes.packed = false)
    {pack : Option Int} (hpack : ∀ n ∈ pack, isPowerOfTwo n = true) :
    (a.withPack pack).packCap = .ok pack := by
  unfold packCap withPack
  cases pack with
  | none => simp [ha]
  | some n => simp [ha, alignmentOf?, hpack n rfl]

/-- What the layout of an aggregate is under a pack. -/
theorem Aggregate.layoutOf_withPack {a : Aggregate} (ha : a.attributes.packed = false)
    {pack : Option Int} (hpack : ∀ n ∈ pack, isPowerOfTwo n = true) :
    layoutOf p (.aggregate (a.withPack pack)) = Failure.within (a.name.getD "")
      (sequenceMembers Setting.pure p pack a.kind (measureMembers Setting.pure p a.members) >>=
        a.finish) := by
  rw [layoutOf_eq, packCap_withPack ha hpack]
  rfl

/-- The layouts under two packs are computed side by side. -/
theorem layoutOf_withPack_alike (hp : p.IsAligned) {a : Aggregate}
    (ha : a.attributes.packed = false) (h : Tightens tight loose) :
    (layoutOf p (.aggregate (a.withPack (some tight)))).Alike (LayoutResult.Inward p.fill)
      (layoutOf p (.aggregate (a.withPack loose))) := by
  rw [Aggregate.layoutOf_withPack ha h.power_some, Aggregate.layoutOf_withPack ha h.power']
  refine Failure.within_rel (fun _ _ _ => trivial) ?_
  refine (sequenceMembers_alike h hp a.kind a.members).returned.bind fun s t hst => ?_
  obtain ⟨hinward, hs, ht⟩ := hst
  apply a.finish_alike hinward
  · exact isPowerOfTwo_sequenceMembers hp h.power_some hs
  · exact isPowerOfTwo_sequenceMembers hp h.power' ht

theorem Aggregate.canonical_withPack (a : Aggregate) (pack : Option Int) :
    (a.withPack pack).canonical = a.canonical.withPack pack := by
  cases a
  cases pack <;> rfl

theorem Aggregate.isIntegral_withPack {a : Aggregate}
    (h : (TypeNode.aggregate a).isIntegral = true) (pack : Option Int) :
    (TypeNode.aggregate (a.withPack pack)).isIntegral = true := by
  obtain ⟨kind, members, name, written, attributes, origin⟩ := a
  obtain ⟨hmembers, -⟩ := Bool.and_eq_true_iff.mp h
  refine Bool.and_eq_true_iff.mpr ⟨hmembers, ?_⟩
  cases pack <;> rfl

/-- **A tighter pack moves nothing outwards.**  An aggregate that is not packed itself lays out
under both packs or under none.  Its size, its alignment and the place of every member, promoted
ones included, are at most what they are under the looser one.  Engines answer alike, whatever they
were asked before. -/
theorem layoutOf_pack_inward (hp : p.IsAligned) {a : Aggregate} (ha : a.attributes.packed = false)
    (h : Tightens tight loose) :
    ((∃ r, layoutOf p (.aggregate (a.withPack (some tight))) = .ok r) ↔
        ∃ t, layoutOf p (.aggregate (a.withPack loose)) = .ok t) ∧
      (∀ r t, layoutOf p (.aggregate (a.withPack (some tight))) = .ok r →
        layoutOf p (.aggregate (a.withPack loose)) = .ok t → r.Inward p.fill t) ∧
      (∀ e e' : Engine, e.HasIntegralHistory → e'.HasIntegralHistory →
        (TypeNode.aggregate a).isIntegral = true →
        ((∃ r, ((Engine.layout p (.aggregate (a.withPack (some tight)))).run e).1 = .ok r) ↔
          ∃ t, ((Engine.layout p (.aggregate (a.withPack loose))).run e').1 = .ok t)) ∧
      ∀ r t, Engine.MayAnswer p (a.withPack (some tight)) r →
        Engine.MayAnswer p (a.withPack loose) t → r.canonical.Inward p.fill t.canonical := by
  obtain ⟨hreturn, hinward⟩ := Except.alike_iff.mp (layoutOf_withPack_alike hp ha h)
  refine ⟨hreturn, hinward, fun e e' he he' hint => ?_, fun r t hr ht => ?_⟩
  · rw [he.exists_layout_iff p (Aggregate.isIntegral_withPack hint (some tight)),
      he'.exists_layout_iff p (Aggregate.isIntegral_withPack hint loose)]
    exact hreturn
  · have hr := hr.canonical
    have ht := ht.canonical
    rw [Aggregate.canonical_withPack] at hr ht
    have halike := layoutOf_withPack_alike hp (a.canonical_attributes ▸ ha) h
    exact (Except.alike_iff.mp halike).2 _ _ hr ht

/-- A status of bitfields of two base types between plain members. -/
def status : Aggregate where
  kind := .struct
  members :=
    [⟨.primitive ⟨"char", some (.int 1), none⟩, some "code", .none⟩,
     ⟨.bitfield ⟨"int", some (.int 4), none⟩ (.int 30), some "flags", .none⟩,
     ⟨.bitfield ⟨"long long", some (.int 8), none⟩ (.int 5), some "level", .none⟩,
     ⟨.primitive ⟨"double", some (.int 8), none⟩, some "value", .none⟩]
  name := some "status"
  pack := none
  attributes := .none
  origin := .written ["status"]

/-- Packed to two bytes a status lies nowhere further out than without a pack, as laid out plainly
and as an engine answers for it. -/
theorem layoutOf_pack_inward_status :
    ∃ r t, layoutOf .llp64 (.aggregate (status.withPack (some 2))) = .ok r ∧
      layoutOf .llp64 (.aggregate (status.withPack none)) = .ok t ∧ r.size = 22 ∧ t.size = 24 ∧
      r.Inward Profile.llp64.fill t ∧
      ∃ r' t', Engine.MayAnswer .llp64 (status.withPack (some 2)) r' ∧
        Engine.MayAnswer .llp64 (status.withPack none) t' ∧
        r'.canonical.Inward Profile.llp64.fill t'.canonical := by
  have hpacks : Tightens 2 none := ⟨by decide, nofun, nofun⟩
  have hsize : (layoutOf .llp64 (.aggregate (status.withPack (some 2)))).toOption.map (·.size) =
      some 22 := by decide +kernel
  have hsize' : (layoutOf .llp64 (.aggregate (status.withPack none))).toOption.map (·.size) =
      some 24 := by decide +kernel
  obtain ⟨r, hr, hrsize⟩ := Option.map_eq_some_iff.mp hsize
  obtain ⟨t, ht, htsize⟩ := Option.map_eq_some_iff.mp hsize'
  rw [Except.toOption_eq_some] at hr ht
  obtain ⟨-, hplain, -, hengine⟩ := layoutOf_pack_inward (p := .llp64) (a := status) (by decide) rfl
    hpacks
  obtain ⟨r', hr', -⟩ := Engine.exists_mayAnswer hr
  obtain ⟨t', ht', -⟩ := Engine.exists_mayAnswer ht
  exact ⟨r, t, hr, ht, hrsize, htsize, hplain r t hr ht, r', t', hr', ht', hengine r' t' hr' ht'⟩

end Aggregates

end RecordLayout
