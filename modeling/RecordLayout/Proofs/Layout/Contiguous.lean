import Mathlib.Algebra.Ring.Int.Defs
import RecordLayout.Proofs.Layout.Least

/-!
# Packed bitfields

A struct that is packed caps the alignment of its bitfields at one.  A bitfield whose alignment is
capped below that of its base type may straddle, so it starts where the one before it ends.  Whether
a cap is at work is told from the two alignments, though, and a base type that has an alignment of
one to begin with looks as if there were none.  Its bitfields are held to the bytes of the base
type, and leave bits behind where they do not fit.

So the bitfields of a packed struct are contiguous exactly when those of such base types fit where
they would have to start.

## Main definitions

* `firstBit` is the number of bits that are declared before a member;
* `Contiguous` says that slots start at these bits;
* `Member.FitsAt` says that a bitfield may start at a bit of a packed struct.

## Main results

* `LeastPlaces.contiguous_iff`: least places leave no bits behind exactly when every demand allows
  the end of those before it;
* `layoutOf_packed_contiguous_iff`: when the bitfields of a packed struct are contiguous, and how
  long it is then.
-/

namespace RecordLayout

/-- What holds at every position of a list holds at its first one and at those of the rest. -/
theorem forall_getElem?_cons {α : Type} {P : Nat → α → Prop} {x : α} {xs : List α} :
    (∀ k y, (x :: xs)[k]? = some y → P k y) ↔ P 0 x ∧ ∀ k y, xs[k]? = some y → P (k + 1) y := by
  constructor
  · intro h
    exact ⟨h 0 x rfl, fun k y hk => h (k + 1) y hk⟩
  · rintro ⟨hzero, hsucc⟩ k y hk
    cases k with
    | zero =>
      obtain rfl : x = y := Option.some.inj hk
      exact hzero
    | succ k => exact hsucc k y hk

/-! ## Least places without a gap -/

/-- The number of bits that are asked for before a position. -/
def Demand.before (demands : List Demand) (k : Nat) : Int :=
  ((demands.take k).map Demand.bits).sum

@[simp] theorem Demand.before_zero (demands : List Demand) : Demand.before demands 0 = 0 := rfl

@[simp] theorem Demand.before_cons_succ (d : Demand) (demands : List Demand) (k : Nat) :
    Demand.before (d :: demands) (k + 1) = d.bits + Demand.before demands k := by
  simp [before]

namespace LeastPlaces

variable {fill : FillDirection} {bit stop : Int} {demands : List Demand} {slots : List Slot}

/-- **Least places leave no bits behind** exactly when every demand allows the end of those before
it. -/
theorem contiguous_iff (h : LeastPlaces fill bit demands slots stop)
    (hd : ∀ d ∈ demands, d.IsMeetable) :
    (∀ k (t : Slot), slots[k]? = some t →
        t.placed.startBit fill = bit + Demand.before demands k) ↔
      ∀ k (d : Demand), demands[k]? = some d → d.Allows (bit + Demand.before demands k) := by
  induction h with
  | nil => simp
  | @cons bit stop d demands t slots least rest ih =>
    have hrest := ih fun d hmem => hd d (List.mem_cons_of_mem _ hmem)
    simp only [forall_getElem?_cons, Demand.before_zero, Demand.before_cons_succ, Int.add_zero,
      ← Int.add_assoc]
    have hfirst : t.placed.startBit fill = bit ↔ d.Allows bit := by
      constructor
      · intro hstart
        rw [← hstart]
        exact least.allowed (hd d List.mem_cons_self)
      · intro hallows
        exact Int.le_antisymm (least.least bit (Int.le_refl bit) hallows) least.after
    constructor
    · rintro ⟨hstart, hothers⟩
      rw [hstart] at hrest
      exact ⟨hfirst.mp hstart, hrest.mp hothers⟩
    · rintro ⟨hallows, hothers⟩
      have hstart := hfirst.mpr hallows
      rw [hstart] at hrest
      exact ⟨hstart, hrest.mpr hothers⟩

/-- Places that leave no bits behind end after all bits that are asked for. -/
theorem stop_eq (h : LeastPlaces fill bit demands slots stop)
    (hstarts : ∀ k (t : Slot), slots[k]? = some t →
      t.placed.startBit fill = bit + Demand.before demands k) :
    stop = bit + (demands.map Demand.bits).sum := by
  induction h with
  | nil => simp
  | @cons bit stop d demands t slots least rest ih =>
    simp only [forall_getElem?_cons, Demand.before_zero, Demand.before_cons_succ, Int.add_zero,
      ← Int.add_assoc] at hstarts
    obtain ⟨hstart, hothers⟩ := hstarts
    rw [hstart] at ih
    rw [ih hothers, List.map_cons, List.sum_cons, Int.add_assoc]

end LeastPlaces

/-! ## Bitfields of a packed struct -/

/-- The number of bits of a bitfield.  Other members have none. -/
def Member.bitWidth (x : Member) : Int :=
  match x.type with
  | .bitfield _ (.int width) => width
  | _ => 0

/-- The number of bits that are declared before the member at a position. -/
def firstBit (members : List Member) (k : Nat) : Int :=
  ((members.take k).map Member.bitWidth).sum

/-- The slots of members start where the bits declared before them end. -/
def Contiguous (fill : FillDirection) (members : List Member) (slots : List Slot) : Prop :=
  ∀ k (t : Slot), slots[k]? = some t → t.placed.startBit fill = firstBit members k

/-- A bitfield with a width and without attributes. -/
def Member.IsPlainBitfield (x : Member) : Prop :=
  x.attributes = .none ∧ ∃ base width, x.type = .bitfield base (.int width) ∧ 0 < width

/-- A bitfield that starts at a bit ends in the storage of its base type, counted from the byte it
starts in, unless the base type has an alignment greater than one. -/
def Member.FitsAt (p : Profile) (bit : Int) (x : Member) : Prop :=
  ∀ base width natural, x.type = .bitfield base width → p.primitiveExtent base = .ok natural →
    natural.alignment = 1 → bit % 8 + x.bitWidth ≤ 8 * natural.size

/-- A demand is that of a bitfield in a packed struct. -/
structure Demand.IsPacked (p : Profile) (x : Member) (d : Demand) : Prop where
  bits : d.bits = x.bitWidth
  allows : ∀ bit, d.Allows bit ↔ x.FitsAt p bit

section Packed

variable {p : Profile} {x : Member} {d : Demand}

/-- Under a cap of one a field is held to the bytes of its base type only if that has an alignment
of one. -/
theorem Bitfield.Field.allows_demand_packed {f : Field} {natural : Extent} {bits bit : Int}
    (hpos : 0 < natural.alignment) (hextent : f.extent = natural.capped (some 1))
    (hnatural : f.natural = natural.alignment) :
    (f.demand bits).Allows bit ↔ (natural.alignment = 1 → bit % 8 + bits ≤ 8 * natural.size) := by
  unfold demand
  rw [hextent, hnatural]
  show (if natural.alignment ≤ min natural.alignment 1 then
    Demand.windowed bits (min natural.alignment 1) natural.size else .free bits).Allows bit ↔ _
  by_cases hone : natural.alignment = 1
  · rw [hone]
    show bit % 8 + bits ≤ 8 * natural.size ↔ _
    simp
  · rw [if_neg (by omega)]
    show True ↔ _
    simp [hone]

/-- What a bitfield asks for under a cap of one. -/
theorem Member.IsPlainBitfield.isPacked (hx : x.IsPlainBitfield) (hp : p.IsAligned)
    (h : x.demand p (some 1) = .ok d) : d.IsPacked p x := by
  obtain ⟨hattributes, base, width, type, -⟩ := hx
  have hbits : x.bitWidth = width := by rw [bitWidth, type]
  unfold Member.demand at h
  rw [type] at h
  obtain ⟨field, hfield, h⟩ := Except.bind_eq_ok.mp h
  obtain ⟨bits, hchecked, h⟩ := Except.bind_eq_ok.mp h
  obtain rfl := Except.pure_eq_ok.mp h
  obtain ⟨natural, -, hnatural, rfl⟩ := bitfieldOf_eq_ok hfield
  obtain ⟨hwidth, -, -⟩ := Bitfield.checkedWidth_eq_ok hchecked
  obtain rfl : width = bits := Json.int.inj hwidth
  have hpos := Number.pos_of_isPowerOfTwo (p.isPowerOfTwo_primitiveExtent hp hnatural)
  have hcap : x.cap (some 1) = some 1 := by
    rw [Member.cap, hattributes]
    rfl
  constructor
  case bits => rw [Bitfield.Field.bits_demand, hbits]
  case allows =>
    intro bit
    rw [Bitfield.Field.allows_demand_packed hpos (congrArg natural.capped hcap) rfl]
    constructor
    · rintro hfits base' width' natural' type' hnatural' hone
      cases type.symm.trans type'
      cases hnatural.symm.trans hnatural'
      rw [hbits]
      exact hfits hone
    · intro hfits hone
      rw [← hbits]
      exact hfits base _ natural type hnatural hone

/-- The bits that are asked for are those that are declared. -/
theorem map_bits_eq {members : List Member} {demands : List Demand}
    (h : List.Forall₂ (Demand.IsPacked p) members demands) :
    demands.map Demand.bits = members.map Member.bitWidth := by
  induction h with
  | nil => rfl
  | cons hd hrest ih => rw [List.map_cons, List.map_cons, hd.bits, ih]

theorem before_eq_firstBit {members : List Member} {demands : List Demand}
    (h : List.Forall₂ (Demand.IsPacked p) members demands) (k : Nat) :
    Demand.before demands k = firstBit members k := by
  rw [Demand.before, firstBit, List.map_take, List.map_take, map_bits_eq h]

/-- Demands allow bits exactly where their members fit. -/
theorem forall_allows_iff {members : List Member} {demands : List Demand}
    (h : List.Forall₂ (Demand.IsPacked p) members demands) (bit : Nat → Int) :
    (∀ k (d : Demand), demands[k]? = some d → d.Allows (bit k)) ↔
      ∀ k (x : Member), members[k]? = some x → x.FitsAt p (bit k) := by
  induction h generalizing bit with
  | nil => simp
  | cons hd hrest ih => rw [forall_getElem?_cons, forall_getElem?_cons, hd.allows, ih]

/-- What placing a bitfield does to a packed struct: it adds a slot of the name of the bitfield, and
no alignment. -/
theorem StructStep.packed {K : TypeNode → Extent → Option LayoutResult → Prop} {s t : StructState}
    (hp : p.IsAligned) (hx : x.IsPlainBitfield) (hs : s.alignment = 1)
    (h : StructStep p (some 1) K x s t) :
    ∃ slot, t.slots = s.slots ++ [slot] ∧ slot.placed.name = x.name ∧ t.alignment = 1 := by
  obtain ⟨hattributes, base, width, type, hwidth⟩ := hx
  cases h with
  | skipped type' open_ field_eq placed_eq placement =>
    cases type.symm.trans type'
    obtain ⟨natural, -, -, rfl⟩ := bitfieldOf_eq_ok field_eq
    obtain ⟨w, hw, hiff⟩ := Bitfield.placement_eq_none_iff placed_eq
    obtain rfl : width = w := Json.int.inj hw
    have hzero := hiff.mp placement
    omega
  | @bitfield _ _ field placed place type' open_ field_eq placed_eq placement =>
    obtain ⟨natural, -, hnatural, rfl⟩ := bitfieldOf_eq_ok field_eq
    have hpos := Number.pos_of_isPowerOfTwo (p.isPowerOfTwo_primitiveExtent hp hnatural)
    have hcap : x.cap (some 1) = some 1 := by
      rw [Member.cap, hattributes]
      rfl
    have halignment : place.alignment = min natural.alignment 1 := by
      rw [Bitfield.alignment_of_place placed_eq placement, hcap]
      rfl
    refine ⟨_, rfl, rfl, ?_⟩
    show raisedBy p x place s.alignment = 1
    rw [raisedBy, halignment, hs]
    split <;> omega
  | flexible type' => cases type.symm.trans type'
  | value type' =>
    rw [type] at type'
    cases type'

/-- The slots of a packed struct that has bitfields only are those of its members, and it is not
aligned. -/
theorem packed_of_walk {K : TypeNode → Extent → Option LayoutResult → Prop} (hp : p.IsAligned)
    {members : List Member} {s : StructState} (hmembers : ∀ x ∈ members, x.IsPlainBitfield)
    (h : Walk (StructStep p (some 1) K) members .start s) :
    s.slots.map (fun t => t.placed.name) = members.map (fun x => x.name) ∧ s.alignment = 1 := by
  refine h.snoc_induction (motive := fun pre s =>
    s.slots.map (fun t => t.placed.name) = pre.map (fun x => x.name) ∧ s.alignment = 1)
    ⟨rfl, rfl⟩ ?_
  rintro pre x u v hx ⟨hnames, halignment⟩ hstep
  obtain ⟨slot, hslots, hname, halignment'⟩ := hstep.packed hp (hmembers x hx) halignment
  rw [hslots, List.map_append, List.map_append, hnames]
  simp [hname, halignment']

/-- The slots and the alignment of a packed struct that has bitfields only. -/
theorem packed_of_sequenceStruct (hp : p.IsAligned) {members : List Member} {s : Sequenced}
    (hmembers : ∀ x ∈ members, x.IsPlainBitfield)
    (h : sequenceStruct Setting.pure p (some 1) (measureMembers Setting.pure p members) = .ok s) :
    s.slots.map (fun t => t.placed.name) = members.map (fun x => x.name) ∧ s.alignment = 1 := by
  have hsequence : sequenceMembers Setting.pure p (some 1) .struct
      (measureMembers Setting.pure p members) = .ok s := h
  cases (wellLaid_invariant p).comes_plainly hsequence with
  | struct kind_eq walk => exact packed_of_walk hp hmembers walk
  | union kind_eq walk => cases kind_eq

end Packed

/-- An aggregate that caps the alignment of its members at one. -/
def Aggregate.IsTight (a : Aggregate) : Prop :=
  a.attributes.packed = true ∨ a.pack = some (.int 1)

theorem Aggregate.IsTight.packCap_eq {a : Aggregate} (ha : a.IsTight) {cap : Option Int}
    (h : a.packCap = .ok cap) : cap = some 1 := by
  obtain ⟨written, hpack, -, rfl⟩ := Aggregate.packCap_eq_ok h
  by_cases hpacked : a.attributes.packed = true
  · rw [if_pos hpacked]
  · rw [if_neg hpacked]
    rcases ha with hpacked' | hone
    · exact absurd hpacked' hpacked
    · rw [hone] at hpack
      obtain ⟨n, hwritten, hn⟩ := Option.map_eq_some_iff.mp hpack.symm
      rw [hwritten, Json.int.inj hn]

/-- **When packed bitfields are contiguous.**  In bits packing, and where base types share units,
the bitfields of a packed struct start where those before them end if and only if each one whose
base type has an alignment of one fits there.  The struct is as long as all of them then. -/
theorem layoutOf_packed_contiguous_iff {p : Profile} (hp : p.IsAligned)
    (hpacking : p.packing = .bits) (hreuse : p.unitReuse = true) {a : Aggregate} {r : LayoutResult}
    (hkind : a.kind = .struct) (ha : a.IsTight) (hmembers : ∀ x ∈ a.members, x.IsPlainBitfield)
    (h : layoutOf p (.aggregate a) = .ok r) :
    ∃ s, sequenceStruct Setting.pure p (some 1) (measureMembers Setting.pure p a.members) = .ok s ∧
      a.finish s = .ok r ∧ r.direct = (s.slots.filter Slot.listed).map Slot.placed ∧
      s.slots.map (fun t => t.placed.name) = a.members.map (fun x => x.name) ∧
      (Contiguous p.fill a.members s.slots ↔
        ∀ k (x : Member), a.members[k]? = some x → x.FitsAt p (firstBit a.members k)) ∧
      (Contiguous p.fill a.members s.slots → a.attributes.requested? = none →
        r.size = (firstBit a.members a.members.length + 7) / 8) := by
  obtain ⟨cap, s, hcap, hs, hr⟩ := Aggregate.layoutOf_struct_eq_ok hkind h
  obtain rfl := ha.packCap_eq hcap
  have hbits : ∀ x ∈ a.members, x.PacksBits p := by
    rintro x hx base' width' type'
    obtain ⟨-, base, width, type, hwidth⟩ := hmembers x hx
    cases type.symm.trans type'
    refine ⟨hpacking, hreuse, fun hzero => ?_⟩
    have hwidth' := Json.int.inj hzero
    omega
  obtain ⟨demands, stop, hdemands, hplaces, hend, hend'⟩ := leastPlaces_of_sequenceStruct hbits hs
  have hpacked : List.Forall₂ (Demand.IsPacked p) a.members demands := by
    have hall := (List.forall₂_and_left _ _).mpr
      ⟨hmembers, Except.mapM_eq_ok.mp hdemands⟩
    exact hall.imp fun x d hx => hx.1.isPacked hp hx.2
  have hmeetable : ∀ d ∈ demands, d.IsMeetable := by
    intro d hd
    obtain ⟨x, -, hx⟩ := Except.exists_of_mapM_eq_ok hdemands d hd
    exact Member.isMeetable_demand hp (isPowerOfTwo_packCap hcap) hx
  obtain ⟨hnames, halignment⟩ := packed_of_sequenceStruct hp hmembers hs
  have hcontiguous : Contiguous p.fill a.members s.slots ↔ ∀ k (t : Slot), s.slots[k]? = some t →
      t.placed.startBit p.fill = 0 + Demand.before demands k := by
    unfold Contiguous
    simp only [Int.zero_add, before_eq_firstBit hpacked]
  refine ⟨s, hs, hr, direct_of_sequenceStruct hs hr, hnames, ?fits, ?size⟩
  case fits =>
    rw [hcontiguous, hplaces.contiguous_iff hmeetable, forall_allows_iff hpacked]
    simp only [Int.zero_add, before_eq_firstBit hpacked]
  case size =>
    intro hgapless hrequested
    have hstop : stop = firstBit a.members a.members.length := by
      rw [hplaces.stop_eq (hcontiguous.mp hgapless), Int.zero_add, map_bits_eq hpacked, firstBit,
        List.take_length]
    have hsize : r.size = s.endOffset := by
      obtain ⟨alignment, hfrom, rfl⟩ := Except.map_eq_ok.mp hr
      rw [Aggregate.alignmentFrom, hrequested, halignment] at hfrom
      cases hfrom
      exact Number.roundUp_of_le_one _ (Int.le_refl 1)
    have hceil : s.endOffset = Number.roundUp stop 8 / 8 :=
      Int.le_antisymm hend (Number.byteCeil_le hend')
    rw [hsize, hceil, hstop]
    simp only [Number.roundUp]
    omega

/-- A packed stamp: a character between two integers, where it fits the rest of a byte. -/
def stamp : Aggregate where
  kind := .struct
  members :=
    [⟨.bitfield ⟨"int", some (.int 4), none⟩ (.int 20), some "serial", .none⟩,
     ⟨.bitfield ⟨"unsigned char", some (.int 1), none⟩ (.int 4), some "series", .none⟩,
     ⟨.bitfield ⟨"int", some (.int 4), none⟩ (.int 30), some "date", .none⟩]
  name := some "stamp"
  pack := none
  attributes := ⟨true, []⟩
  origin := .written ["stamp"]

/-- The fields of a stamp are contiguous, and it has seven bytes. -/
theorem layoutOf_packed_contiguous_stamp :
    ∃ r s, layoutOf .sysvX8664 (.aggregate stamp) = .ok r ∧ stamp.finish s = .ok r ∧
      Contiguous .lowToHigh stamp.members s.slots ∧ r.size = 7 := by
  have hok : (layoutOf .sysvX8664 (.aggregate stamp)).isOk = true := by decide +kernel
  have hmembers : ∀ x ∈ stamp.members, x.IsPlainBitfield := by
    intro x hx
    simp only [stamp, List.mem_cons, List.not_mem_nil, or_false] at hx
    rcases hx with rfl | rfl | rfl <;> exact ⟨rfl, _, _, rfl, by decide⟩
  have hfits : ∀ k (x : Member), stamp.members[k]? = some x →
      x.FitsAt .sysvX8664 (firstBit stamp.members k) := by
    rintro (_ | _ | _ | k) x hk base width natural type hnatural hone
    case succ.succ.zero | zero =>
      cases hk
      cases type
      cases hnatural
      cases hone
    case succ.zero =>
      cases hk
      cases type
      cases hnatural
      decide
    case succ.succ.succ => cases hk
  obtain ⟨r, hr⟩ := Except.exists_of_isOk hok
  obtain ⟨s, -, hfinish, -, -, hiff, hsize⟩ :=
    layoutOf_packed_contiguous_iff (by decide) rfl rfl rfl (.inl rfl) hmembers hr
  have hcontiguous := hiff.mpr hfits
  exact ⟨r, s, hr, hfinish, hcontiguous, hsize hcontiguous rfl⟩

/-- A packed wire of three characters of five bits. -/
def wire : Aggregate where
  kind := .struct
  members :=
    [⟨.bitfield ⟨"unsigned char", some (.int 1), none⟩ (.int 5), some "red", .none⟩,
     ⟨.bitfield ⟨"unsigned char", some (.int 1), none⟩ (.int 5), some "green", .none⟩,
     ⟨.bitfield ⟨"unsigned char", some (.int 1), none⟩ (.int 5), some "blue", .none⟩]
  name := some "wire"
  pack := none
  attributes := ⟨true, []⟩
  origin := .written ["wire"]

/-- The fields of a wire start at bytes of their own, so they are not contiguous, and the wire has
three bytes for its fifteen bits. -/
theorem layoutOf_wire_not_contiguous :
    ∃ r s, layoutOf .sysvX8664 (.aggregate wire) = .ok r ∧
      sequenceStruct Setting.pure .sysvX8664 (some 1)
        (measureMembers Setting.pure .sysvX8664 wire.members) = .ok s ∧
      wire.finish s = .ok r ∧
      s.slots.map (fun t => t.placed.startBit .lowToHigh) = [0, 8, 16] ∧
      ¬ Contiguous .lowToHigh wire.members s.slots ∧
      r.size ≠ (firstBit wire.members wire.members.length + 7) / 8 := by
  have hlayout : (layoutOf .sysvX8664 (.aggregate wire)).toOption.map (fun r => r.size) =
      some 3 := by
    decide +kernel
  have hstarts : (sequenceStruct Setting.pure .sysvX8664 (some 1)
      (measureMembers Setting.pure .sysvX8664 wire.members)).toOption.map
        (fun s => s.slots.map fun t => t.placed.startBit .lowToHigh) = some [0, 8, 16] := by
    decide +kernel
  obtain ⟨r, hr, hsize⟩ := Option.map_eq_some_iff.mp hlayout
  rw [Except.toOption_eq_some] at hr
  obtain ⟨cap, s, hcap, hs, hfinish⟩ := Aggregate.layoutOf_struct_eq_ok rfl hr
  obtain rfl : some 1 = cap := Except.ok.inj hcap
  rw [hs] at hstarts
  have hbits : s.slots.map (fun t => t.placed.startBit .lowToHigh) = [0, 8, 16] :=
    Option.some.inj hstarts
  refine ⟨r, s, hr, hs, hfinish, hbits, ?_, ?_⟩
  · intro hcontiguous
    have hsecond : (s.slots.map fun t => t.placed.startBit .lowToHigh)[1]? = some 8 := by
      rw [hbits]
      rfl
    rw [List.getElem?_map, Option.map_eq_some_iff] at hsecond
    obtain ⟨t, ht, hbit⟩ := hsecond
    have hfive := (hcontiguous 1 t ht).symm.trans hbit
    exact absurd hfive (by decide)
  · rw [hsize]
    decide

end RecordLayout
