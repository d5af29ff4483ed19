import Mathlib.Algebra.Group.Int.Defs
import RecordLayout.Proofs.Layout.Aligned
import RecordLayout.Proofs.Layout.EngineWellFormed
import RecordLayout.Proofs.Layout.Nesting

/-!
# Alignment at every depth

Every member of a layout that is no bitfield starts at a multiple of its alignment, and that divides
the alignment of the aggregate.  Inside of an aggregate that is itself placed at a multiple of its
own alignment all members are aligned in the whole, and so on inwards.  A cap breaks this chain at
the member that it applies to: the aggregate may then start anywhere that the cap allows.

## Main definitions

* `LayoutResult.IsAligned` says that alignment is honoured in a layout;
* `AlignedThroughout` says so of all layouts nested in it, too.

## Main results

* `AlignedThroughout.dvd_add_chainOffset`: a field is aligned in the whole when no member around it
  was capped;
* `alignedThroughout_invariant`: the layouts that a walk makes up honour alignment;
* `Engine.alignedThroughout_of_layout`: so do the layouts of an engine.
-/

namespace RecordLayout

open Number (isPowerOfTwo)

/-! ## Layouts -/

/-- Alignment is honoured in a layout. -/
structure LayoutResult.IsAligned (r : LayoutResult) : Prop where
  alignment : ∃ k : Nat, r.alignment = 2 ^ k
  size : r.alignment ∣ r.size
  members : ∀ m ∈ r.members, ∃ k : Nat, m.alignment = 2 ^ k
  offsets : ∀ m ∈ r.direct, m.isBitfield = false → m.alignment ∣ m.byteOffset
  divides : ∀ m ∈ r.direct, m.isBitfield = false → m.alignment ∣ r.alignment
  /-- Only a member that is no bitfield has a layout of its own. -/
  nested : ∀ m ∈ r.members, m.layout.isSome → m.isBitfield = false

/-- Alignment is honoured in a layout and in all layouts nested in it. -/
inductive AlignedThroughout : LayoutResult → Prop
  | intro {r : LayoutResult} (shape : r.IsAligned)
      (nested : ∀ m ∈ r.members, ∀ n, m.layout = some n → AlignedThroughout n) :
      AlignedThroughout r

theorem AlignedThroughout.shape {r : LayoutResult} (h : AlignedThroughout r) : r.IsAligned := by
  cases h
  assumption

theorem AlignedThroughout.of_mem {r n : LayoutResult} {m : MemberLayout} (h : AlignedThroughout r)
    (hm : m ∈ r.members) (hn : m.layout = some n) : AlignedThroughout n := by
  cases h with
  | intro shape nested => exact nested m hm n hn

/-- **Alignment is honoured in the whole**: a field inside of members none of which was capped is at
a multiple of its alignment, counted from any place that is aligned for the outermost layout. -/
theorem AlignedThroughout.dvd_add_chainOffset {r : LayoutResult} {ms : List MemberLayout}
    {m : MemberLayout} (h : AlignedThroughout r) (hchain : MemberChain r ms m)
    (huncapped : ∀ o ∈ ms, ∀ n, o.layout = some n → n.alignment ≤ o.alignment)
    (hm : m.isBitfield = false) {base : Int} (hbase : r.alignment ∣ base) :
    m.alignment ∣ base + chainOffset ms m := by
  -- Inwards the base becomes the place of the layout that the chain has come to.
  induction hchain generalizing base with
  | direct direct =>
    rw [chainOffset_nil]
    exact Int.dvd_add (Int.dvd_trans (h.shape.divides _ direct hm) hbase)
      (h.shape.offsets _ direct hm)
  | @into r n o m ms direct layout inside ih =>
    rw [List.forall_mem_cons] at huncapped
    have hmem := (LayoutResult.mem_direct.mp direct).1
    have hn := h.of_mem hmem layout
    have hplain := h.shape.nested o hmem (by rw [layout]; rfl)
    -- The member is aligned in the whole, and being uncapped it is aligned for its own layout.
    have hself : o.alignment ∣ base + o.byteOffset :=
      Int.dvd_add (Int.dvd_trans (h.shape.divides o direct hplain) hbase)
        (h.shape.offsets o direct hplain)
    have hinner : n.alignment ∣ o.alignment :=
      Number.dvd_of_le (Number.isPowerOfTwo_iff.mpr hn.shape.alignment)
        (Number.isPowerOfTwo_iff.mpr (h.shape.members o hmem)) (huncapped.1 n layout)
    rw [chainOffset_cons, ← Int.add_assoc]
    exact ih hn huncapped.2 hm (Int.dvd_trans hinner hself)

/-! ## Slots -/

/-- The alignment of a member is a power of two, and its own layout honours alignment. -/
structure MemberLayout.IsAligned (m : MemberLayout) : Prop where
  power : isPowerOfTwo m.alignment = true
  plain : m.layout.isSome → m.isBitfield = false
  nested : ∀ n, m.layout = some n → AlignedThroughout n

/-- The storage of a direct member honours alignment in an aggregate that is aligned so far to
`alignment`. -/
structure Slot.IsAligned (alignment : Int) (t : Slot) : Prop where
  placed : t.placed.IsAligned
  promoted : ∀ f ∈ t.promoted, f.promoted = true ∧ f.IsAligned
  offset : t.placed.isBitfield = false → t.placed.alignment ∣ t.placed.byteOffset
  le : t.placed.isBitfield = false → t.placed.alignment ≤ alignment

section Slots

variable {p : Profile} {cap : Option Int} {x : Member}

theorem Slot.IsAligned.mono {n m : Int} {t : Slot} (h : t.IsAligned n) (hle : n ≤ m) :
    t.IsAligned m :=
  { h with le := fun hplain => Int.le_trans (h.le hplain) hle }

/-- Promoted fields honour alignment as the members do that they come from. -/
theorem AlignedThroughout.promotedFrom {r : LayoutResult} (h : AlignedThroughout r) (offset : Int) :
    ∀ f ∈ promotedFrom offset r, f.promoted = true ∧ f.IsAligned := by
  intro f hf
  obtain ⟨g, hg, rfl⟩ := List.mem_map.mp hf
  have hmem := (List.mem_filter.mp hg).1
  exact ⟨rfl, Number.isPowerOfTwo_iff.mpr (h.shape.members g hmem), h.shape.nested g hmem,
    fun n hn => h.of_mem hmem hn⟩

theorem isAligned_bitfieldSlot {place : Bitfield.Placement}
    (hplace : isPowerOfTwo place.alignment = true) (alignment : Int) :
    (bitfieldSlot x place).IsAligned alignment where
  placed := ⟨hplace, nofun, nofun⟩
  promoted := nofun
  offset h := by simp [MemberLayout.isBitfield, bitfieldSlot] at h
  le h := by simp [MemberLayout.isBitfield, bitfieldSlot] at h

/-- What a walk knows of the types of members. -/
abbrev SizedThroughout : TypeNode → Extent → Option LayoutResult → Prop :=
  Sized (fun _ x => isPowerOfTwo x.alignment = true) fun _ r => AlignedThroughout r

theorem isAligned_valueSlot {natural extent : Extent} {nested : Option LayoutResult} {offset : Int}
    (index : Nat) (padding : Int) (hsized : SizedThroughout x.type natural nested)
    (hextent : isPowerOfTwo extent.alignment = true) (hoffset : extent.alignment ∣ offset) :
    (valueSlot x index offset padding extent nested).IsAligned extent.alignment := by
  have hnested : ∀ n, nested = some n → AlignedThroughout n := by
    rintro n rfl
    obtain ⟨_, -, hn, -⟩ := hsized.exists_aggregate
    exact hn
  refine ⟨⟨hextent, fun _ => rfl, hnested⟩, ?_, fun _ => hoffset, fun _ => Int.le_refl _⟩
  cases nested with
  | none => cases h : x.name <;> simp [valueSlot, h]
  | some n =>
    cases h : x.name with
    | none => simpa only [valueSlot, h] using (hnested n rfl).promotedFrom offset
    | some name => simp [valueSlot, h]

end Slots

/-! ## Walks -/

/-- Alignment is honoured by the members of an aggregate so far, which is aligned to `alignment`. -/
def SlotsAligned (alignment : Int) (slots : List Slot) : Prop :=
  isPowerOfTwo alignment = true ∧ ∀ t ∈ slots, t.IsAligned alignment

section Walks

variable {p : Profile} {cap : Option Int} {x : Member} {alignment alignment' : Int}
  {slots : List Slot}

theorem SlotsAligned.push {slot : Slot} (h : SlotsAligned alignment slots)
    (hpower : isPowerOfTwo alignment' = true) (hle : alignment ≤ alignment')
    (hslot : slot.IsAligned alignment') : SlotsAligned alignment' (slots ++ [slot]) := by
  refine ⟨hpower, ?_⟩
  rw [List.forall_mem_append, List.forall_mem_singleton]
  exact ⟨fun t ht => (h.2 t ht).mono hle, hslot⟩

theorem SlotsAligned.push_value {natural extent : Extent} {nested : Option LayoutResult}
    {offset padding : Int} {index : Nat} (h : SlotsAligned alignment slots)
    (hcap : ∀ c ∈ cap, isPowerOfTwo c = true) (hsized : SizedThroughout x.type natural nested)
    (hextent : p.memberExtent x cap natural = .ok extent) (hoffset : extent.alignment ∣ offset) :
    SlotsAligned (max alignment extent.alignment)
      (slots ++ [valueSlot x index offset padding extent nested]) := by
  have hpower := Profile.isPowerOfTwo_memberExtent hextent hcap hsized.1
  have hslot := isAligned_valueSlot index padding hsized hpower hoffset
  exact h.push (Number.isPowerOfTwo_max h.1 hpower) (Int.le_max_left _ _)
    (hslot.mono (Int.le_max_right _ _))

theorem SlotsAligned.push_bitfield (hp : p.IsAligned) (h : SlotsAligned alignment slots)
    (hcap : ∀ c ∈ cap, isPowerOfTwo c = true) {base : Primitive} {width : Json}
    {field : Bitfield.Field} {cursor : Int} {unit : Option Bitfield.OpenUnit}
    {placed : Bitfield.Placed} {place : Bitfield.Placement}
    (hfield : bitfieldOf p x cap base width = .ok field)
    (hplaced : Bitfield.place p field cursor unit = .ok placed)
    (hplace : placed.placement = some place) :
    SlotsAligned (raisedBy p x place alignment) (slots ++ [bitfieldSlot x place]) := by
  have hpower := isPowerOfTwo_place hp hcap hfield hplaced hplace
  refine h.push (isPowerOfTwo_raisedBy h.1 hpower) ?_ (isAligned_bitfieldSlot hpower _)
  unfold raisedBy
  split
  · exact Int.le_max_left _ _
  · exact Int.le_refl _

/-- **One member of a struct** honours alignment. -/
theorem StructStep.slotsAligned (hp : p.IsAligned) (hcap : ∀ c ∈ cap, isPowerOfTwo c = true)
    {s t : StructState} (hs : SlotsAligned s.alignment s.slots)
    (h : StructStep p cap SizedThroughout x s t) : SlotsAligned t.alignment t.slots := by
  cases h with
  | skipped type open_ field_eq placed_eq placement => exact hs
  | bitfield type open_ field_eq placed_eq placement =>
    exact hs.push_bitfield hp hcap field_eq placed_eq placement
  | flexible type open_ named sized empty extent_eq offset_eq =>
    have hpower := Profile.isPowerOfTwo_memberExtent extent_eq hcap sized.1
    refine hs.push_value hcap sized extent_eq ?_
    rw [offset_eq]
    exact Number.dvd_roundUp _ (Number.pos_of_isPowerOfTwo hpower)
  | value type open_ anonymous sized extent_eq offset_eq =>
    have hpower := Profile.isPowerOfTwo_memberExtent extent_eq hcap sized.1
    refine hs.push_value hcap sized extent_eq ?_
    rw [offset_eq]
    exact Number.dvd_roundUp _ (Number.pos_of_isPowerOfTwo hpower)

/-- **One member of a union** honours alignment. -/
theorem UnionStep.slotsAligned (hp : p.IsAligned) (hcap : ∀ c ∈ cap, isPowerOfTwo c = true)
    {s t : UnionState} (hs : SlotsAligned s.alignment s.slots)
    (h : UnionStep p cap SizedThroughout x s t) : SlotsAligned t.alignment t.slots := by
  cases h with
  | skipped type field_eq placed_eq placement => exact hs
  | bitfield type field_eq placed_eq placement =>
    exact hs.push_bitfield hp hcap field_eq placed_eq placement
  | value type anonymous sized extent_eq =>
    exact hs.push_value hcap sized extent_eq (Int.dvd_zero _)

theorem Sequenced.Comes.slotsAligned (hp : p.IsAligned) (hcap : ∀ c ∈ cap, isPowerOfTwo c = true)
    {kind : AggregateKind} {members : List Member} {s : Sequenced}
    (h : s.Comes p cap SizedThroughout kind members) : SlotsAligned s.alignment s.slots := by
  cases h with
  | struct kind_eq walk =>
    exact walk.snoc_induction (motive := fun _ s => SlotsAligned s.alignment s.slots) ⟨rfl, nofun⟩
      fun _ _ _ _ _ hs hstep => hstep.slotsAligned hp hcap hs
  | union kind_eq walk =>
    exact walk.snoc_induction (motive := fun _ s => SlotsAligned s.alignment s.slots) ⟨rfl, nofun⟩
      fun _ _ _ _ _ hs hstep => hstep.slotsAligned hp hcap hs

end Walks

/-! ## All layouts -/

/-- A member of a slot is aligned, and if it is direct it is that of the slot. -/
theorem Slot.IsAligned.of_mem {n : Int} {slots : List Slot} (h : ∀ t ∈ slots, t.IsAligned n)
    {m : MemberLayout} (hm : m ∈ slots.flatMap Slot.members) :
    m.IsAligned ∧ (m.promoted = false → ∃ t ∈ slots, m = t.placed) := by
  obtain ⟨t, ht, rfl | hm⟩ := mem_members hm
  · exact ⟨(h t ht).placed, fun _ => ⟨t, ht, rfl⟩⟩
  · obtain ⟨hpromoted, hm⟩ := (h t ht).promoted m hm
    exact ⟨hm, fun hdirect => absurd (hpromoted.symm.trans hdirect) nofun⟩

/-- **Members that are aligned make up an aligned layout.** -/
theorem SlotsAligned.alignedThroughout {a : Aggregate} {s : Sequenced} {r : LayoutResult}
    (h : SlotsAligned s.alignment s.slots) (hr : a.finish s = .ok r) : AlignedThroughout r := by
  obtain ⟨alignment, halignment, rfl⟩ := Except.map_eq_ok.mp hr
  have hpower := Aggregate.isPowerOfTwo_alignmentFrom halignment h.1
  have hslots := fun t ht => (h.2 t ht).mono (Aggregate.le_alignmentFrom halignment)
  refine .intro
    { alignment := Number.isPowerOfTwo_iff.mp hpower
      size := Number.dvd_roundUp _ (Number.pos_of_isPowerOfTwo hpower)
      members := fun m hm => Number.isPowerOfTwo_iff.mp (Slot.IsAligned.of_mem hslots hm).1.power
      offsets := ?offsets
      divides := ?divides
      nested := fun m hm => (Slot.IsAligned.of_mem hslots hm).1.plain }
    fun m hm => (Slot.IsAligned.of_mem hslots hm).1.nested
  case offsets =>
    intro m hm hplain
    obtain ⟨hmem, hdirect⟩ := LayoutResult.mem_direct.mp hm
    obtain ⟨t, ht, rfl⟩ := (Slot.IsAligned.of_mem hslots hmem).2 hdirect
    exact (hslots t ht).offset hplain
  case divides =>
    intro m hm hplain
    obtain ⟨hmem, hdirect⟩ := LayoutResult.mem_direct.mp hm
    obtain ⟨t, ht, rfl⟩ := (Slot.IsAligned.of_mem hslots hmem).2 hdirect
    exact Number.dvd_of_le (hslots t ht).placed.power hpower ((hslots t ht).le hplain)

/-- **The layouts that a walk makes up honour alignment.** -/
theorem alignedThroughout_invariant {p : Profile} (hp : p.IsAligned) :
    LayoutInvariant p (fun _ x => isPowerOfTwo x.alignment = true) fun _ r => AlignedThroughout r
    where
  primitive h := p.isPowerOfTwo_primitiveExtent hp h
  array hx _ := hx
  flexible hx _ := hx
  aggregate hr := Number.isPowerOfTwo_iff.mpr hr.shape.alignment
  compute hcap hcomes hfinish :=
    (hcomes.slotsAligned hp (isPowerOfTwo_packCap hcap)).alignedThroughout hfinish

theorem alignedThroughout_keepable :
    Engine.Keepable fun p a r => (p.IsAligned → AlignedThroughout r) ∧ a.sameKey a = true :=
  .of_same fun _ hr => hr

/-- The layouts of an engine honour alignment, after any calls. -/
theorem Engine.alignedThroughout_of_layout {channels : Channels} {limit : Option Int}
    {calls : List Call} {p : Profile} (hp : p.IsAligned) {a : Aggregate} {r : LayoutResult}
    (h : ((layout p (.aggregate a)).run ((make channels limit).replay calls)).1 = .ok r) :
    AlignedThroughout r :=
  (layout_ensures alignedThroughout_keepable
    (fun p => (LayoutInvariant.imp alignedThroughout_invariant).and (selfKey_invariant p)) h).1 hp

/-- **An engine honours alignment at every depth**: in its layout of an aggregate and in all layouts
nested in it, and also in the whole, for each field that no capped member is around. -/
theorem Engine.alignment_honoured {channels : Channels} {limit : Option Int} {calls : List Call}
    {p : Profile} (hp : p.IsAligned) {a : Aggregate} {r : LayoutResult}
    (h : ((layout p (.aggregate a)).run ((make channels limit).replay calls)).1 = .ok r) :
    AlignedThroughout r ∧ ∀ ms m, MemberChain r ms m →
      (∀ o ∈ ms, ∀ n, o.layout = some n → n.alignment ≤ o.alignment) → m.isBitfield = false →
        m.alignment ∣ chainOffset ms m := by
  have hr := alignedThroughout_of_layout hp h
  refine ⟨hr, fun ms m hchain huncapped hm => ?_⟩
  have hdvd := hr.dvd_add_chainOffset hchain huncapped hm (Int.dvd_zero _)
  rwa [Int.zero_add] at hdvd

/-- A mark at a place, which is a structure of its own. -/
def mark : Aggregate where
  kind := .struct
  members :=
    [⟨.primitive ⟨"char", some (.int 1), none⟩, some "tag", .none⟩,
     ⟨.aggregate
        { kind := .struct
          members :=
            [⟨.primitive ⟨"short", some (.int 2), none⟩, some "line", .none⟩,
             ⟨.primitive ⟨"int", some (.int 4), none⟩, some "column", .none⟩]
          name := some "place"
          pack := none
          attributes := .none
          origin := .written ["place"] }, some "at", .none⟩]
  name := some "mark"
  pack := none
  attributes := .none
  origin := .written ["mark"]

/-- A field of a member of a mark is at the eighth byte of the mark, and aligned to four. -/
theorem Engine.alignment_honoured_mark :
    Profile.IsAligned .sysvX8664 ∧ ∃ r, ((layout .sysvX8664 (.aggregate mark)).run
        ((make [] none).replay [.layout .lp64 (.aggregate mark)])).1 = .ok r ∧
      AlignedThroughout r ∧ ∃ o m, MemberChain r [o] m ∧ m.alignment = 4 ∧
        chainOffset [o] m = 8 ∧ m.alignment ∣ chainOffset [o] m := by
  have hp : Profile.IsAligned .sysvX8664 := by decide +kernel
  have hok : ((layout .sysvX8664 (.aggregate mark)).run
      ((make [] none).replay [.layout .lp64 (.aggregate mark)])).1.toOption.any (fun r =>
        r.direct.any fun o => o.layout.any fun n => n.alignment ≤ o.alignment &&
          n.direct.any fun m => !m.isBitfield && m.alignment == 4 &&
            o.byteOffset + m.byteOffset == 8) = true := by decide +kernel
  cases hr : ((layout .sysvX8664 (.aggregate mark)).run
      ((make [] none).replay [.layout .lp64 (.aggregate mark)])).1 with
  | error f =>
    rw [hr] at hok
    cases hok
  | ok r =>
    rw [hr] at hok
    obtain ⟨o, ho, hok⟩ := List.any_eq_true.mp hok
    cases hn : o.layout with
    | none =>
      rw [hn] at hok
      cases hok
    | some n =>
      rw [hn, Option.any_some, Bool.and_eq_true, decide_eq_true_iff] at hok
      obtain ⟨m, hm, hfield⟩ := List.any_eq_true.mp hok.2
      simp only [Bool.and_eq_true, Bool.not_eq_true', beq_iff_eq] at hfield
      obtain ⟨⟨hplain, halignment⟩, hoffset⟩ := hfield
      obtain ⟨haligned, hchains⟩ := alignment_honoured hp hr
      have hchain : MemberChain r [o] m := .into ho hn (.direct hm)
      have huncapped : ∀ o' ∈ [o], ∀ n', o'.layout = some n' → n'.alignment ≤ o'.alignment := by
        simpa [hn] using hok.1
      exact ⟨hp, r, rfl, haligned, o, m, hchain, halignment, by simpa using hoffset,
        hchains [o] m hchain huncapped hplain⟩

end RecordLayout
