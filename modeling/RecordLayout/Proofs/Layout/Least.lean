import Mathlib.Data.List.Forall2
import RecordLayout.Proofs.Layout.Progress

/-!
# Least layouts

What a member of a struct asks of its place can be said without any layout: a number of bits, and
the bits at which it may start.  An assignment gives each member a start that it may have, in the
order of declaration and without overlap.  The layout of a struct is one of these assignments, and
the least of them: every member starts no later than in any other one, and the struct is no longer.

The layout places one member after another, each at the first place from the running bit on.  That
this is best for all members at once is due to the running bit: it is the end of the member before,
and an earlier running bit never makes a place later.  The invariant is that the running bit lies at
or before the end of the members so far in the assignment.

Bitfields must be packed at the running bit for this, and may not be of width zero.  A unit that is
closed leaves bits behind that an assignment may use.

## Main definitions

* `Demand` is what a member asks of its place, `Member.demand` that of a member;
* `Assignment` says that starts meet demands;
* `Aggregate.LiesLeast` says that a layout is least among all assignments.

## Main results

* `layoutOf_least`: the layout of a struct is least, and so is what engines answer;
* `layoutOf_assignment`: it is an assignment.
-/

namespace RecordLayout

/-! ## Demands -/

/-- What a member of a struct asks of its place.  Alignments and sizes are in bytes. -/
inductive Demand where
  /-- Whole bytes at an aligned place. -/
  | aligned (bits alignment : Int)
  /-- A bitfield that ends in the storage of its base type, counted from an aligned place. -/
  | windowed (bits alignment size : Int)
  /-- A bitfield that may straddle. -/
  | free (bits : Int)
  deriving DecidableEq, Repr

namespace Demand

/-- The number of bits that are asked for. -/
def bits : Demand → Int
  | aligned bits _ => bits
  | windowed bits _ _ => bits
  | free bits => bits

/-- Whether a member with this demand may start at a bit. -/
def Allows (start : Int) : Demand → Prop
  | aligned _ alignment => 8 * alignment ∣ start
  | windowed bits alignment size => start % (8 * alignment) + bits ≤ 8 * size
  | free _ => True

instance (start : Int) : (d : Demand) → Decidable (d.Allows start)
  | aligned _ alignment => inferInstanceAs (Decidable (8 * alignment ∣ start))
  | windowed bits alignment size =>
    inferInstanceAs (Decidable (start % (8 * alignment) + bits ≤ 8 * size))
  | free _ => inferInstanceAs (Decidable True)

/-- Whether there are places as aligned as is asked for. -/
def IsMeetable : Demand → Prop
  | aligned _ alignment => 0 < alignment
  | windowed _ alignment _ => 0 < alignment
  | free _ => True

end Demand

/-- What a bitfield asks of its place: it must not straddle when its alignment is not capped below
that of its base type. -/
def Bitfield.Field.demand (f : Field) (bits : Int) : Demand :=
  if f.natural ≤ f.extent.alignment then .windowed bits f.extent.alignment f.extent.size
  else .free bits

@[simp] theorem Bitfield.Field.bits_demand (f : Field) (bits : Int) :
    (f.demand bits).bits = bits := by
  unfold demand
  split <;> rfl

/-- What a member asks of its place under the cap of its struct. -/
def Member.demand (p : Profile) (cap : Option Int) (x : Member) : Except Failure Demand :=
  match x.type with
  | .bitfield base width => do
    let field ← bitfieldOf p x cap base width
    let bits ← field.checkedWidth
    return field.demand bits
  | type => do
    let natural ← (type.measure Setting.pure p).extent
    let extent ← p.memberExtent x cap natural
    return .aligned (8 * extent.size) extent.alignment

/-- Starts that meet demands from a bit on: each comes at or after the end of the one before, and
`stop` is the end of the last one. -/
inductive Assignment : Int → List Demand → List Int → Int → Prop
  | nil {bit : Int} : Assignment bit [] [] bit
  | cons {bit start stop : Int} {d : Demand} {demands : List Demand} {starts : List Int}
      (le : bit ≤ start) (allows : d.Allows start)
      (rest : Assignment (start + d.bits) demands starts stop) :
      Assignment bit (d :: demands) (start :: starts) stop

/-! ## Least places -/

/-- A slot is the least place from a bit on that meets a demand. -/
structure Slot.LeastFrom (fill : FillDirection) (bit : Int) (d : Demand) (t : Slot) : Prop where
  after : bit ≤ t.placed.startBit fill
  least : ∀ start, bit ≤ start → d.Allows start → t.placed.startBit fill ≤ start
  allowed : d.IsMeetable → d.Allows (t.placed.startBit fill)

/-- Slots that are least places one after another. -/
inductive LeastPlaces (fill : FillDirection) : Int → List Demand → List Slot → Int → Prop
  | nil {bit : Int} : LeastPlaces fill bit [] [] bit
  | cons {bit stop : Int} {d : Demand} {demands : List Demand} {t : Slot} {slots : List Slot}
      (least : t.LeastFrom fill bit d)
      (rest : LeastPlaces fill (t.placed.startBit fill + d.bits) demands slots stop) :
      LeastPlaces fill bit (d :: demands) (t :: slots) stop

namespace LeastPlaces

variable {fill : FillDirection} {bit stop : Int} {demands : List Demand} {slots : List Slot}

/-- **One after another is best for all.**  Least places start no later than any assignment from the
same bit or a later one. -/
theorem le_assignment (h : LeastPlaces fill bit demands slots stop) {bit' stop' : Int}
    {starts : List Int} (hbit : bit ≤ bit') (ha : Assignment bit' demands starts stop') :
    List.Forall₂ (fun t start => t.placed.startBit fill ≤ start) slots starts ∧ stop ≤ stop' := by
  induction h generalizing bit' starts with
  | nil =>
    cases ha
    exact ⟨.nil, hbit⟩
  | cons least rest ih =>
    cases ha with
    | cons le allows rest' =>
      -- An earlier start of this member only moves the bit from which the others are placed back.
      have hstart := least.least _ (Int.le_trans hbit le) allows
      obtain ⟨hstarts, hstop⟩ := ih (Int.add_le_add_right hstart _) rest'
      exact ⟨.cons hstart hstarts, hstop⟩

/-- Least places are an assignment themselves. -/
theorem assignment (h : LeastPlaces fill bit demands slots stop)
    (hd : ∀ d ∈ demands, d.IsMeetable) :
    Assignment bit demands (slots.map fun t => t.placed.startBit fill) stop := by
  induction h with
  | nil => exact .nil
  | cons least rest ih =>
    apply Assignment.cons least.after
    · exact least.allowed (hd _ List.mem_cons_self)
    · exact ih fun d hmem => hd d (List.mem_cons_of_mem _ hmem)

end LeastPlaces

/-! ## Steps -/

/-- A bitfield goes to the running bit: the profile packs bits, base types share units, and the
width is not zero. -/
def Member.PacksBits (p : Profile) (x : Member) : Prop :=
  ∀ base width, x.type = .bitfield base width →
    p.packing = .bits ∧ p.unitReuse = true ∧ width ≠ .int 0

/-- The invariant of a walk that leaves no bits behind. -/
structure StructState.Gapless (p : Profile) (s : StructState) : Prop where
  consistent : Bitfield.Consistent p s.cursor s.unit
  packing : p.packing = .bits ∨ s.unit = none

/-- The bit that a state has reached. -/
def StructState.reached (s : StructState) : Int := Bitfield.running s.cursor s.unit

/-- What one member does to a state: it goes to the least place from the bit that is reached, and
its end is reached then. -/
structure StructStep.Least (p : Profile) (cap : Option Int) (x : Member) (s t : StructState)
    (d : Demand) (slot : Slot) : Prop where
  demand : x.demand p cap = .ok d
  slots : t.slots = s.slots ++ [slot]
  least : slot.LeastFrom p.fill s.reached d
  reached : t.reached = slot.placed.startBit p.fill + d.bits
  gapless : t.Gapless p

section Steps

variable {p : Profile} {cap : Option Int} {x : Member} {s t : StructState}

/-- A flush ends in the byte of any bit from the one that is reached on. -/
theorem StructState.Gapless.flush_le (hs : s.Gapless p) {bit : Int} (h : s.reached ≤ bit) :
    (Bitfield.flush p s.cursor s.unit).cursor ≤ Number.roundUp bit 8 / 8 := by
  rcases hs.packing with hp | hunit
  · exact Bitfield.flush_le_of_running hp hs.consistent h
  · have hbyte := Number.byteCeil_mono h
    simp only [reached, hunit, Bitfield.running, Number.byteCeil_mul] at hbyte
    rw [hunit]
    exact hbyte

/-- A member that is no bitfield goes to the least place. -/
theorem leastFrom_valueSlot (hs : s.Gapless p) (x : Member) (index : Nat) (bits padding : Int)
    (extent : Extent) (nested : Option LayoutResult) {offset : Int}
    (hoffset :
      offset = Number.roundUp (Bitfield.flush p s.cursor s.unit).cursor extent.alignment) :
    (valueSlot x index offset padding extent nested).LeastFrom p.fill s.reached
      (.aligned bits extent.alignment) := by
  have hflush := Bitfield.running_le_flush hs.consistent
  have hround := Number.le_roundUp (Bitfield.flush p s.cursor s.unit).cursor extent.alignment
  rw [← hoffset] at hround
  constructor
  case after =>
    simp only [StructState.reached, MemberLayout.startBit, valueSlot]
    omega
  case least =>
    intro start hstart hallows
    obtain ⟨k, rfl⟩ := hallows
    have hbyte := hs.flush_le hstart
    rw [Int.mul_assoc, Int.mul_comm 8, Number.byteCeil_mul] at hbyte
    have hle := Number.roundUp_le_of_dvd hbyte (Int.dvd_mul_right extent.alignment k)
    simp only [MemberLayout.startBit, valueSlot, hoffset]
    rw [Int.mul_assoc]
    omega
  case allowed =>
    intro hpos
    simp only [MemberLayout.startBit, valueSlot, hoffset, Demand.Allows]
    rw [Int.mul_comm 8]
    exact Int.mul_dvd_mul_right _ (Number.dvd_roundUp _ hpos)

theorem Member.demand_value (hx : ∀ base width, x.type ≠ .bitfield base width)
    {natural extent : Extent} (hnatural : (x.type.measure Setting.pure p).extent = .ok natural)
    (hextent : p.memberExtent x cap natural = .ok extent) :
    x.demand p cap = .ok (.aligned (8 * extent.size) extent.alignment) := by
  unfold demand
  split
  · rename_i base width htype
    exact absurd htype (hx base width)
  · rw [hnatural, Except.bind_eq_ok]
    refine ⟨natural, rfl, ?_⟩
    rw [hextent]
    rfl

theorem Member.demand_bitfield {base : Primitive} {width : Json} {field : Bitfield.Field}
    {bits : Int} (type : x.type = .bitfield base width)
    (hfield : bitfieldOf p x cap base width = .ok field) (hwidth : field.checkedWidth = .ok bits) :
    x.demand p cap = .ok (field.demand bits) := by
  unfold demand
  rw [type]
  dsimp only
  rw [hfield, Except.bind_eq_ok]
  refine ⟨field, rfl, ?_⟩
  rw [hwidth]
  rfl

/-- A bitfield at the running bit goes to the least place. -/
theorem leastFrom_bitfieldSlot {field : Bitfield.Field} {place : Bitfield.Placement}
    (hfit : place.bitWidth ≤ field.extent.size * 8)
    (hstart : (bitfieldSlot x place).placed.startBit p.fill =
      Bitfield.startBit field.extent field.natural place.bitWidth s.reached) :
    (bitfieldSlot x place).LeastFrom p.fill s.reached (field.demand place.bitWidth) := by
  constructor
  case after =>
    rw [hstart]
    exact Bitfield.le_startBit _ _ _ _
  case least =>
    intro start hle hallows
    rw [hstart]
    apply Bitfield.startBit_le_of_fits hle
    intro hcapped
    rw [Bitfield.Field.demand, if_pos hcapped] at hallows
    rw [Int.mul_comm, Int.mul_comm field.extent.size]
    exact hallows
  case allowed =>
    intro hmeetable
    unfold Bitfield.Field.demand at *
    split at hmeetable
    · rename_i hcapped
      rw [if_pos hcapped, hstart]
      simp only [Demand.Allows]
      rw [Int.mul_comm 8, Int.mul_comm 8]
      exact Bitfield.startBit_fits hmeetable hfit hcapped
    · rename_i hcapped
      rw [if_neg hcapped]
      trivial

/-- **One member goes to the least place** from the bit that is reached. -/
theorem StructStep.least {E : TypeNode → Extent → Prop} {G : Aggregate → LayoutResult → Prop}
    (hs : s.Gapless p) (hx : x.PacksBits p) (h : StructStep p cap (SizedPlainly p E G) x s t) :
    ∃ d slot, StructStep.Least p cap x s t d slot := by
  cases h with
  | @skipped base width field placed type open_ field_eq placed_eq placement =>
    obtain ⟨-, -, hzero⟩ := hx base width type
    obtain ⟨natural, -, -, rfl⟩ := bitfieldOf_eq_ok field_eq
    obtain ⟨w, hw, hiff⟩ := Bitfield.placement_eq_none_iff placed_eq
    exact absurd (hw.trans (congrArg Json.int (hiff.mp placement))) hzero
  | @bitfield base width field placed place type open_ field_eq placed_eq placement =>
    obtain ⟨hp, hreuse, -⟩ := hx base width type
    obtain ⟨hwidth, hstart⟩ := Bitfield.start_of_place hp hreuse placed_eq placement
    obtain ⟨-, -, hfit⟩ := Bitfield.checkedWidth_eq_ok hwidth
    have adv := Bitfield.advances_of_place placed_eq placement hs.consistent
    refine ⟨_, _, Member.demand_bitfield type field_eq hwidth, rfl,
      leastFrom_bitfieldSlot hfit hstart, ?_, adv.consistent, .inl hp⟩
    rw [Bitfield.Field.bits_demand]
    exact adv.running_eq
  | @flexible element name natural extent offset type open_ named sized empty extent_eq offset_eq =>
    have hsize : extent.size = 0 := by rw [Profile.memberExtent_eq_ok extent_eq, empty]
    refine ⟨_, _, Member.demand_value (by simp [type]) sized.2 extent_eq, rfl,
      leastFrom_valueSlot hs _ _ _ _ _ _ offset_eq, ?_, trivial, .inr rfl⟩
    simp only [StructState.reached, Bitfield.running, MemberLayout.startBit, valueSlot, Demand.bits,
      hsize]
    omega
  | @value natural extent nested offset type open_ anonymous sized extent_eq offset_eq =>
    refine ⟨_, _, Member.demand_value (ne_bitfield type) sized.2 extent_eq, rfl,
      leastFrom_valueSlot hs _ _ _ _ _ _ offset_eq, ?_, trivial, .inr rfl⟩
    simp only [StructState.reached, Bitfield.running, MemberLayout.startBit, valueSlot, Demand.bits]
    omega

end Steps

/-! ## Structs -/

section Structs

variable {p : Profile} {cap : Option Int}

/-- **All members go to least places**, one after another. -/
theorem leastPlaces_of_walk {E : TypeNode → Extent → Prop} {G : Aggregate → LayoutResult → Prop}
    {members : List Member} {s t : StructState} (hs : s.Gapless p)
    (hmembers : ∀ x ∈ members, x.PacksBits p)
    (h : Walk (StructStep p cap (SizedPlainly p E G)) members s t) :
    ∃ demands slots, members.mapM (Member.demand p cap) = .ok demands ∧
      t.slots = s.slots ++ slots ∧ LeastPlaces p.fill s.reached demands slots t.reached ∧
      t.Gapless p := by
  induction members generalizing s with
  | nil =>
    obtain rfl := h
    exact ⟨[], [], rfl, by simp, .nil, hs⟩
  | cons x xs ih =>
    obtain ⟨u, hstep, hrest⟩ := h
    obtain ⟨d, slot, hleast⟩ := hstep.least hs (hmembers x List.mem_cons_self)
    obtain ⟨demands, slots, hdemands, hslots, hplaces, hgapless⟩ :=
      ih hleast.gapless (fun y hy => hmembers y (List.mem_cons_of_mem x hy)) hrest
    refine ⟨d :: demands, slot :: slots, ?_, ?_, ?_, hgapless⟩
    · rw [List.mapM_cons, hleast.demand, hdemands]
      rfl
    · rw [hslots, hleast.slots, List.append_assoc]
      rfl
    · apply LeastPlaces.cons hleast.least
      rw [← hleast.reached]
      exact hplaces

theorem StructState.gapless_start : StructState.start.Gapless p := ⟨trivial, .inr rfl⟩

/-- The members of a struct go to least places, and it ends in the last byte that they reach. -/
theorem leastPlaces_of_sequenceStruct {members : List Member} {s : Sequenced}
    (hmembers : ∀ x ∈ members, x.PacksBits p)
    (h : sequenceStruct Setting.pure p cap (measureMembers Setting.pure p members) = .ok s) :
    ∃ demands stop, members.mapM (Member.demand p cap) = .ok demands ∧
      LeastPlaces p.fill 0 demands s.slots stop ∧ s.endOffset ≤ Number.roundUp stop 8 / 8 ∧
      stop ≤ s.endOffset * 8 := by
  have hsequence : sequenceMembers Setting.pure p cap .struct
      (measureMembers Setting.pure p members) = .ok s := h
  cases (wellLaid_invariant p).comes_plainly hsequence with
  | @struct t kind_eq walk =>
    obtain ⟨demands, slots, hdemands, hslots, hplaces, hgapless⟩ :=
      leastPlaces_of_walk StructState.gapless_start hmembers walk
    refine ⟨demands, t.reached, hdemands, ?_, hgapless.flush_le (Int.le_refl _), ?_⟩
    · rw [hslots]
      exact hplaces
    · exact Bitfield.running_le_flush hgapless.consistent
  | union kind_eq walk => cases kind_eq

end Structs

/-- What the layout of a struct comes from. -/
theorem Aggregate.layoutOf_struct_eq_ok {p : Profile} {a : Aggregate} {r : LayoutResult}
    (hkind : a.kind = .struct) (h : layoutOf p (.aggregate a) = .ok r) :
    ∃ cap s, a.packCap = .ok cap ∧
      sequenceStruct Setting.pure p cap (measureMembers Setting.pure p a.members) = .ok s ∧
      a.finish s = .ok r := by
  rw [layoutOf_eq, Failure.within_eq_ok, hkind] at h
  obtain ⟨cap, hcap, h⟩ := Except.bind_eq_ok.mp h
  obtain ⟨s, hs, hr⟩ := Except.bind_eq_ok.mp h
  exact ⟨cap, s, hcap, hs, hr⟩

/-- Under an aligned profile every demand can be met. -/
theorem Member.isMeetable_demand {p : Profile} (hp : p.IsAligned) {cap : Option Int}
    (hcap : ∀ c ∈ cap, Number.isPowerOfTwo c = true) {x : Member} {d : Demand}
    (h : x.demand p cap = .ok d) : d.IsMeetable := by
  unfold demand at h
  split at h
  · obtain ⟨field, hfield, h⟩ := Except.bind_eq_ok.mp h
    obtain ⟨bits, -, h⟩ := Except.bind_eq_ok.mp h
    obtain rfl := Except.pure_eq_ok.mp h
    obtain ⟨natural, -, hnatural, rfl⟩ := bitfieldOf_eq_ok hfield
    have hpower := p.isPowerOfTwo_primitiveExtent hp hnatural
    unfold Bitfield.Field.demand
    split
    · apply Number.pos_of_isPowerOfTwo
      exact isPowerOfTwo_capAlignment (isPowerOfTwo_memberCap x hcap) hpower
    · trivial
  · rename_i hx
    obtain ⟨natural, hnatural, h⟩ := Except.bind_eq_ok.mp h
    obtain ⟨extent, hextent, h⟩ := Except.bind_eq_ok.mp h
    obtain rfl := Except.pure_eq_ok.mp h
    have hpower := (aligned_invariant hp).of_extent hx hnatural
    apply Number.pos_of_isPowerOfTwo
    exact Profile.isPowerOfTwo_memberExtent hextent hcap hpower

/-- **The layout of a struct is an assignment** that meets the demands of its members. -/
theorem layoutOf_assignment {p : Profile} (hp : p.IsAligned) {a : Aggregate} {r : LayoutResult}
    (hkind : a.kind = .struct) (hmembers : ∀ x ∈ a.members, x.PacksBits p)
    (h : layoutOf p (.aggregate a) = .ok r) :
    ∃ cap s demands stop, a.packCap = .ok cap ∧
      sequenceStruct Setting.pure p cap (measureMembers Setting.pure p a.members) = .ok s ∧
      a.finish s = .ok r ∧ a.members.mapM (Member.demand p cap) = .ok demands ∧
      Assignment 0 demands (s.slots.map fun t => t.placed.startBit p.fill) stop ∧
      stop ≤ r.size * 8 := by
  obtain ⟨cap, s, hcap, hs, hr⟩ := Aggregate.layoutOf_struct_eq_ok hkind h
  obtain ⟨demands, stop, hdemands, hplaces, -, hend⟩ := leastPlaces_of_sequenceStruct hmembers hs
  refine ⟨cap, s, demands, stop, hcap, hs, hr, hdemands, hplaces.assignment fun d hd => ?_, ?_⟩
  · obtain ⟨x, -, hx⟩ := Except.exists_of_mapM_eq_ok hdemands d hd
    exact Member.isMeetable_demand hp (isPowerOfTwo_packCap hcap) hx
  · obtain ⟨alignment, -, rfl⟩ := Except.map_eq_ok.mp hr
    have hround := Number.le_roundUp s.endOffset alignment
    simp only
    omega

/-- The layout `r` of a struct is pointwise least.  In every assignment that meets the demands of the
members all of them, unnamed bitfields included, start at or after their place in the layout, and no
multiple of the alignment that holds the assignment is less than the size of the layout. -/
def Aggregate.LiesLeast (p : Profile) (a : Aggregate) (r : LayoutResult) : Prop :=
  ∃ cap s demands, a.packCap = .ok cap ∧
    sequenceStruct Setting.pure p cap (measureMembers Setting.pure p a.members) = .ok s ∧
    a.finish s = .ok r ∧ r.direct = (s.slots.filter Slot.listed).map Slot.placed ∧
    a.members.mapM (Member.demand p cap) = .ok demands ∧
    ∀ starts stop, Assignment 0 demands starts stop →
      List.Forall₂ (fun t start => t.placed.startBit p.fill ≤ start) s.slots starts ∧
        ∀ size, r.alignment ∣ size → stop ≤ 8 * size → r.size ≤ size

/-- The least place of each member makes up the layout. -/
theorem Aggregate.liesLeast_of_layoutOf {p : Profile} {a : Aggregate} {r : LayoutResult}
    (hkind : a.kind = .struct) (hmembers : ∀ x ∈ a.members, x.PacksBits p)
    (h : layoutOf p (.aggregate a) = .ok r) : a.LiesLeast p r := by
  obtain ⟨cap, s, hcap, hs, hr⟩ := Aggregate.layoutOf_struct_eq_ok hkind h
  obtain ⟨demands, stop, hdemands, hplaces, hend, -⟩ := leastPlaces_of_sequenceStruct hmembers hs
  have hdirect : r.direct = (s.slots.filter Slot.listed).map Slot.placed := by
    have hsequence : sequenceMembers Setting.pure p cap .struct
        (measureMembers Setting.pure p a.members) = .ok s := hs
    have hsound := Sequenced.sound_of_comes ((wellLaid_invariant p).comes hsequence)
    obtain ⟨alignment, -, rfl⟩ := Except.map_eq_ok.mp hr
    exact direct_members fun t ht => (hsound.slots t ht).promotes
  refine ⟨cap, s, demands, hcap, hs, hr, hdirect, hdemands, fun starts stop' ha => ?_⟩
  obtain ⟨hstarts, hstop⟩ := hplaces.le_assignment (Int.le_refl 0) ha
  refine ⟨hstarts, fun size hdvd hsize => ?_⟩
  have hle : s.endOffset ≤ size := by
    apply Int.le_trans hend
    apply Number.byteCeil_le
    omega
  obtain ⟨alignment, -, rfl⟩ := Except.map_eq_ok.mp hr
  exact Number.roundUp_le_of_dvd hle hdvd

/-- **The layout of a struct is pointwise least**, and so is what engines answer for it, whatever
they were asked before. -/
theorem layoutOf_least {p : Profile} {a : Aggregate} (hkind : a.kind = .struct) :
    ((∀ x ∈ a.members, x.PacksBits p) →
        ∀ r, layoutOf p (.aggregate a) = .ok r → a.LiesLeast p r) ∧
      ((∀ x ∈ a.canonical.members, x.PacksBits p) →
        ∀ r, Engine.MayAnswer p a r → a.canonical.LiesLeast p r.canonical) :=
  ⟨fun hmembers _ hr => Aggregate.liesLeast_of_layoutOf hkind hmembers hr, fun hmembers _ hr =>
    Aggregate.liesLeast_of_layoutOf (a.canonical_kind.trans hkind) hmembers hr.canonical⟩

/-- A parcel of two bitfields, of which one has no name, and a plain member. -/
def parcel : Aggregate where
  kind := .struct
  members :=
    [⟨.bitfield ⟨"int", some (.int 4), none⟩ (.int 20), some "weight", .none⟩,
     ⟨.bitfield ⟨"int", some (.int 4), none⟩ (.int 15), none, .none⟩,
     ⟨.primitive ⟨"char", some (.int 1), none⟩, some "zone", .none⟩]
  name := some "parcel"
  pack := none
  attributes := .none
  origin := .written ["parcel"]

/-- Members of a parcel at bits 8, 64 and 80 do not start before their places in the layout, and
twelve bytes are not less than the layout takes, nor than what an engine answers takes. -/
theorem layoutOf_least_parcel :
    ∃ r s, layoutOf .sysvX8664 (.aggregate parcel) = .ok r ∧ parcel.finish s = .ok r ∧
      List.Forall₂ (fun t start => t.placed.startBit .lowToHigh ≤ start) s.slots [8, 64, 80] ∧
      r.size ≤ 12 ∧ ∃ r', Engine.MayAnswer .sysvX8664 parcel r' ∧ r'.canonical.size ≤ 12 := by
  have hok : (layoutOf .sysvX8664 (.aggregate parcel)).toOption.map (·.alignment) = some 4 := by
    decide +kernel
  obtain ⟨r, hr, halignment⟩ := Option.map_eq_some_iff.mp hok
  rw [Except.toOption_eq_some] at hr
  obtain ⟨hplain, hengine⟩ := layoutOf_least (p := .sysvX8664) (a := parcel) rfl
  have hmembers : ∀ x ∈ parcel.members, x.PacksBits .sysvX8664 := by
    intro x hx base width type
    refine ⟨rfl, rfl, ?_⟩
    rintro rfl
    simp only [parcel, List.mem_cons, List.not_mem_nil, or_false] at hx
    rcases hx with rfl | rfl | rfl <;> cases type
  have hasked : (parcel.members.mapM (Member.demand .sysvX8664 none)).toOption =
      some [.windowed 20 4 4, .windowed 15 4 4, .aligned 8 1] := by
    decide +kernel
  have hassignment : Assignment 0 [.windowed 20 4 4, .windowed 15 4 4, .aligned 8 1] [8, 64, 80]
      88 := by
    apply Assignment.cons (by decide) (by decide)
    apply Assignment.cons (by decide) (by decide)
    apply Assignment.cons (by decide) (by decide)
    exact .nil
  -- The canonical parcel has the same members.
  have hbound {b : Aggregate} {t : LayoutResult} (hcap : b.packCap = .ok none)
      (hsame : b.members = parcel.members) (halignment : t.alignment = 4)
      (h : b.LiesLeast .sysvX8664 t) : ∃ s, b.finish s = .ok t ∧
        List.Forall₂ (fun t start => t.placed.startBit .lowToHigh ≤ start) s.slots [8, 64, 80] ∧
        t.size ≤ 12 := by
    obtain ⟨cap, s, demands, hcap', -, hfinish, -, hdemands, hleast⟩ := h
    obtain rfl : none = cap := Except.ok.inj (hcap.symm.trans hcap')
    rw [hsame] at hdemands
    rw [hdemands] at hasked
    obtain rfl := Option.some.inj hasked
    obtain ⟨hstarts, hsize⟩ := hleast [8, 64, 80] 88 hassignment
    exact ⟨s, hfinish, hstarts, hsize 12 (by rw [halignment]; decide) (by decide)⟩
  obtain ⟨s, hfinish, hstarts, hsize⟩ := hbound rfl rfl halignment (hplain hmembers r hr)
  obtain ⟨r', hr', hcanonical⟩ := Engine.exists_mayAnswer hr
  have halignment' : r'.canonical.alignment = 4 := by
    rw [hcanonical, LayoutResult.through_alignment, halignment]
  obtain ⟨-, -, -, hsize'⟩ := hbound rfl rfl halignment' (hengine hmembers r' hr')
  exact ⟨r, s, hr, hfinish, hstarts, hsize, r', hr', hsize'⟩

end RecordLayout
