import RecordLayout.Proofs.Layout.Aligned
import RecordLayout.Proofs.Layout.EngineWellFormed
import RecordLayout.Proofs.TypeTree.Canonical

/-!
# Layouts of canonical types

An engine takes types that are the same key for one another, so what it answers depends on what it
was asked before: it may answer for a type that the plain layout refuses, and it may show a number
where a flag was written.  Nothing else can differ.  Whenever an engine answers for an aggregate,
the plain layout of the canonical type is the layout that it answers with, in canonical form.

A canonical form does not keep failures.  What is shown is therefore a property of the layouts that
are kept, and not that the engine goes in step with the plain walk.

## Main definitions

* `LayoutResult.canonical` is a layout in canonical form: all types are canonical, and no size is
  shown as a flag;
* `Engine.MayAnswer` says that some engine answers with a layout.

## Main results

* `Bitfield.place_canonical`, `StructStep.canonical`, `UnionStep.canonical`: each step of a walk is
  one of the plain walk over canonical types;
* `canonical_invariant`: so is the whole walk;
* `Engine.layout_canonical`: the layouts of an engine are those of canonical types.
-/

namespace RecordLayout

/-- All types are canonical, and no size is shown as a flag. -/
def View.canonical : View where
  type := TypeNode.canonical
  flags := false

theorem View.isLocal_canonical : View.canonical.IsLocal := fun _ _ _ => rfl

/-! ## Extents -/

/-- An extent whose size is shown as a number. -/
abbrev Extent.canonical : Extent → Extent := through .canonical

@[simp] theorem Extent.canonical_sizeIsFlag (x : Extent) : x.canonical.sizeIsFlag = false := rfl

section Extents

variable {p : Profile} {x : Extent} {cap : Option Int}

/-- An alignment that a scalar type was given is a number already. -/
theorem Profile.primitiveAlignment_canonical {q : Primitive} {size n : Int}
    (h : p.primitiveAlignment q size = .ok n) : p.primitiveAlignment q.canonical size = .ok n := by
  unfold primitiveAlignment at h ⊢
  cases halignment : q.alignment with
  | none =>
    rw [halignment] at h
    simpa [Primitive.canonical, halignment] using h
  | some alignment =>
    rw [halignment] at h
    cases alignment with
    | int k => simpa [Primitive.canonical, halignment] using h
    | flag b => simp [Quantity.constant, alignmentOf?] at h

/-- A scalar type that has an extent has it in canonical form, too. -/
theorem Profile.primitiveExtent_canonical {q : Primitive} (h : p.primitiveExtent q = .ok x) :
    p.primitiveExtent q.canonical = .ok x.canonical := by
  have hsize : (q.canonical.size <|> (p.sizeOf? q.canonical.name).map Quantity.int) =
      (q.size <|> (p.sizeOf? q.name).map Quantity.int).map Quantity.canonical := by
    cases hsize : q.size with
    | some size => simp [Primitive.canonical, hsize]
    | none =>
      simp only [Primitive.canonical, hsize]
      cases p.sizeOf? q.name <;> rfl
  unfold primitiveExtent at h ⊢
  rw [hsize]
  cases hfound : q.size <|> (p.sizeOf? q.name).map Quantity.int with
  | none =>
    rw [hfound] at h
    cases h
  | some size =>
    simp only [hfound] at h
    simp only [Option.map_some]
    split at h
    · cases h
    · rename_i hpos
      obtain ⟨alignment, halignment, rfl⟩ := Except.map_eq_ok.mp h
      rw [if_neg (show ¬ size.canonical.value ≤ 0 from hpos), Quantity.value_canonical,
        primitiveAlignment_canonical halignment]
      rfl

/-- A member takes the canonical form of what it takes, or is refused all the same. -/
theorem Profile.memberExtent_canonical (p : Profile) (m : Member) (cap : Option Int)
    (natural : Extent) :
    p.memberExtent m.canonical cap natural.canonical =
      (p.memberExtent m cap natural).map Extent.canonical := by
  have hmember : p.memberExtent m.canonical cap natural.canonical =
      p.memberExtent m cap natural.canonical := by
    cases m
    rfl
  rw [hmember, memberExtent, memberExtent]
  cases m.attributes.requested? with
  | none => rfl
  | some requested =>
    dsimp only
    cases checkAligned requested ("member " ++ nameOrAnonymous m.name) with
    | error f => rfl
    | ok checked =>
      change (if _ then _ else _ : Except Failure Extent) =
        Except.map Extent.canonical (if _ then _ else _)
      split
      · rfl
      · split <;> rfl

theorem Profile.memberExtent_canonical_ok {m : Member} {natural : Extent}
    (h : p.memberExtent m cap natural = .ok x) :
    p.memberExtent m.canonical cap natural.canonical = .ok x.canonical := by
  rw [memberExtent_canonical, h]
  rfl

/-- Dimensions that are accepted are numbers already. -/
theorem arrayCount_canonical {e : TypeNode} {dims : List Json} {count : Int}
    (h : arrayCount e dims = .ok count) :
    arrayCount e.canonical (dims.map Json.canonical) = .ok count := by
  obtain ⟨-, sizes, hsizes, -⟩ := arrayCount_eq_ok h
  obtain ⟨rfl, -⟩ := dimensionSizes_eq_ok hsizes
  have hdims : (sizes.map Json.int).map Json.canonical = sizes.map Json.int := by
    rw [List.map_map]
    rfl
  rw [hdims]
  -- The full form of the element is shown only when there are no dimensions.
  have hnonempty : sizes.map Json.int ≠ [] := by
    intro hempty
    rw [hempty] at h
    cases h
  rw [← h, arrayCount_congr e.memberOnly?_canonical hnonempty]

/-- A pack that is accepted is a number already. -/
theorem Aggregate.packCap_canonical {a : Aggregate} (h : a.packCap = .ok cap) :
    a.canonical.packCap = .ok cap := by
  obtain ⟨written, hpack, -⟩ := packCap_eq_ok h
  have hcanonical : a.canonical.pack = a.pack := by
    rw [canonical_pack, hpack, Option.map_map]
    rfl
  rw [← h, packCap, packCap, hcanonical, canonical_attributes]

end Extents

/-! ## Bitfields -/

namespace Bitfield

/-- A field of a canonical type. -/
def Field.canonical (f : Field) : Field :=
  { f with base := f.base.canonical, extent := f.extent.canonical, width := f.width.canonical }

/-- A unit that was opened by a canonical type. -/
def OpenUnit.canonical (u : OpenUnit) : OpenUnit :=
  { u with base := u.base.canonical, sizeIsFlag := false }

/-- A place whose size is shown as a number. -/
def Placement.canonical (place : Placement) : Placement := { place with sizeIsFlag := false }

@[simp] theorem Placement.canonical_sizeIsFlag (place : Placement) :
    place.canonical.sizeIsFlag = false := rfl

/-- A placed field of a canonical type. -/
def Placed.canonical (placed : Placed) : Placed :=
  { placed with
    placement := placed.placement.map Placement.canonical
    unit := placed.unit.map OpenUnit.canonical }

variable (p : Profile) (f : Field) (cursor : Int) (unit : Option OpenUnit)

@[simp] theorem flush_canonical :
    flush p cursor (unit.map OpenUnit.canonical) = flush p cursor unit := by
  cases unit <;> rfl

theorem placeZero_canonical :
    placeZero p f.canonical cursor (unit.map OpenUnit.canonical) =
      (placeZero p f cursor unit).canonical := by
  simp only [placeZero, flush_canonical]
  cases unit <;> rfl

theorem placeInUnit_canonical (width : Int) :
    placeInUnit p f.canonical width cursor (unit.map OpenUnit.canonical) =
      (placeInUnit p f width cursor unit).canonical := by
  cases unit with
  | none => rfl
  | some u =>
    have hshares : (u.canonical.accepts p f.canonical.extent &&
        decide (u.canonical.bitsUsed + width ≤ u.canonical.size * 8)) =
      (u.accepts p f.extent && decide (u.bitsUsed + width ≤ u.size * 8)) := rfl
    simp only [Option.map_some, placeInUnit, hshares]
    split <;> rfl

theorem placeInBits_canonical (width : Int) :
    placeInBits p f.canonical width cursor (unit.map OpenUnit.canonical) =
      (placeInBits p f width cursor unit).canonical := by
  cases unit with
  | none => rfl
  | some u =>
    have haccepts : u.canonical.accepts p f.canonical.extent = u.accepts p f.extent := rfl
    simp only [Option.map_some, placeInBits, haccepts]
    split <;> rfl

theorem placeWidth_canonical (width : Int) :
    placeWidth p f.canonical width cursor (unit.map OpenUnit.canonical) =
      (placeWidth p f width cursor unit).canonical := by
  unfold placeWidth
  split
  · exact placeZero_canonical p f cursor unit
  · cases p.packing with
    | bits => exact placeInBits_canonical p f cursor unit width
    | unit => exact placeInUnit_canonical p f cursor unit width

variable {p f cursor unit}

/-- A width that is accepted is a number already. -/
theorem checkedWidth_canonical {width : Int} (h : f.checkedWidth = .ok width) :
    f.canonical.checkedWidth = .ok width := by
  obtain ⟨hwidth, -⟩ := checkedWidth_eq_ok h
  have hcanonical : f.canonical.width = f.width := by
    rw [Field.canonical, hwidth]
    rfl
  rw [← h, Field.checkedWidth, Field.checkedWidth, hcanonical]
  rfl

/-- **A bitfield goes to the same place** when its type is canonical. -/
theorem place_canonical {placed : Placed} (h : place p f cursor unit = .ok placed) :
    place p f.canonical cursor (unit.map OpenUnit.canonical) = .ok placed.canonical := by
  obtain ⟨width, hwidth, rfl⟩ := place_eq_ok h
  rw [place, Except.mapError_eq_ok] at h ⊢
  unfold attempt at h ⊢
  simp only [hwidth] at h
  simp only [checkedWidth_canonical hwidth]
  have hwindow : f.canonical.hasEmptyWindow = f.hasEmptyWindow := rfl
  rw [hwindow]
  split at h
  · cases h
  · rename_i hplaced
    rw [if_neg hplaced, placeWidth_canonical]

end Bitfield

theorem bitfieldOf_canonical {p : Profile} {x : Member} {cap : Option Int} {base : Primitive}
    {width : Json} {field : Bitfield.Field} (h : bitfieldOf p x cap base width = .ok field) :
    bitfieldOf p x.canonical cap base.canonical width.canonical = .ok field.canonical := by
  obtain ⟨natural, hrequested, hnatural, rfl⟩ := bitfieldOf_eq_ok h
  obtain ⟨type, name, attributes⟩ := x
  dsimp only at hrequested
  rw [bitfieldOf, Member.canonical, hrequested, Profile.primitiveExtent_canonical hnatural]
  rfl

/-! ## Layouts -/

/-- A layout in canonical form. -/
abbrev LayoutResult.canonical : LayoutResult → LayoutResult := through .canonical

/-- The place of a member in canonical form. -/
abbrev MemberLayout.canonical : MemberLayout → MemberLayout := through .canonical

/-- A slot in canonical form. -/
abbrev Slot.canonical : Slot → Slot := through .canonical

/-- The slot of a canonical member. -/
theorem valueSlot_canonical (x : Member) (index : Nat) (offset padding : Int) (extent : Extent)
    (nested : Option LayoutResult) :
    valueSlot x.canonical index offset padding extent.canonical
        (nested.map LayoutResult.canonical) =
      (valueSlot x index offset padding extent nested).canonical :=
  valueSlot_through View.isLocal_canonical x.canonical_name x.canonical_type index offset padding
    extent nested

theorem bitfieldSlot_canonical (x : Member) (place : Bitfield.Placement) :
    bitfieldSlot x.canonical place.canonical = (bitfieldSlot x place).canonical := by
  cases x
  rfl

theorem raisedBy_canonical (p : Profile) (x : Member) (place : Bitfield.Placement)
    (alignment : Int) :
    raisedBy p x.canonical place.canonical alignment = raisedBy p x place alignment := by
  cases x
  rfl

/-- The state of a walk over a struct in canonical form. -/
def StructState.canonical (s : StructState) : StructState :=
  { s with
    slots := s.slots.map Slot.canonical
    unit := s.unit.map Bitfield.OpenUnit.canonical }

/-- The state of a walk over a union in canonical form. -/
def UnionState.canonical (s : UnionState) : UnionState :=
  { s with slots := s.slots.map Slot.canonical, endIsFlag := false }

/-- In canonical form no end is the size of a flag. -/
theorem UnionState.endIsFlag_reaching_canonical (s : UnionState) (size : Int) :
    (s.canonical.reaching size false).endIsFlag = false := ite_self false

/-- Placed members in canonical form. -/
abbrev Sequenced.canonical : Sequenced → Sequenced := through .canonical

/-! ## Walks -/

/-- The canonical type takes the canonical extent. -/
def TypeNode.TakesCanonically (p : Profile) (node : TypeNode) (x : Extent) : Prop :=
  (node.canonical.measure Setting.pure p).extent = .ok x.canonical

/-- The canonical aggregate is laid out in canonical form. -/
def Aggregate.LaysCanonically (p : Profile) (a : Aggregate) (r : LayoutResult) : Prop :=
  a.canonical.compute Setting.pure p = .ok r.canonical

/-- What a walk knows of a type that is measured canonically. -/
abbrev SizedCanonically (p : Profile) : TypeNode → Extent → Option LayoutResult → Prop :=
  Sized (TypeNode.TakesCanonically p) (Aggregate.LaysCanonically p)

section Walks

variable {p : Profile} {cap : Option Int} {x : Member} {natural : Extent}
  {nested : Option LayoutResult}

/-- What is nested in a member is nested in the canonical member. -/
theorem nestedLayout_canonical (h : SizedCanonically p x.type natural nested)
    (hanonymous : x.name = none → nested.isSome) :
    nestedLayout Setting.pure (x.canonical.measured Setting.pure p) =
      .ok (nested.map LayoutResult.canonical) := by
  obtain ⟨type, name, attributes⟩ := x
  obtain ⟨-, hnested⟩ := h
  cases type with
  | aggregate a =>
    obtain ⟨r, rfl, hlays, -⟩ := hnested
    exact Except.bind_eq_ok.mpr ⟨r.canonical, hlays, rfl⟩
  | primitive | array | flexibleArray | bitfield | incomplete | unknown =>
    obtain rfl : nested = none := hnested
    cases name with
    | none => cases hanonymous rfl
    | some name => rfl

/-- A member that is no bitfield takes its extent canonically. -/
theorem extent_canonical (h : SizedCanonically p x.type natural nested) :
    (x.canonical.measured Setting.pure p).measure.extent = .ok natural.canonical := by
  cases x
  exact h.1

/-- A step over a struct that no open-ended array has ended. -/
theorem placeInStruct_open {s : StructState} (hopen : s.flexible = none)
    (y : Measured (Except Failure)) :
    placeInStruct Setting.pure p cap s y =
      Failure.within y.member.pathName
        (match y.member.type with
        | .bitfield base width => placeBitfield Setting.pure p cap s y.member base width
        | .flexibleArray _ => placeFlexible Setting.pure p cap s y
        | _ => placeValue Setting.pure p cap s y) := by
  rw [placeInStruct, hopen]
  rfl

/-- **A step over a struct** is one of the plain walk over canonical types. -/
theorem StructStep.canonical {s t : StructState}
    (h : StructStep p cap (SizedCanonically p) x s t) :
    placeInStruct Setting.pure p cap s.canonical (x.canonical.measured Setting.pure p) =
      .ok t.canonical := by
  have hopen : s.canonical.flexible = none := by
    cases h <;> exact ‹s.flexible = none›
  rw [placeInStruct_open hopen, Failure.within_eq_ok, Member.member_measured, Member.canonical_type]
  cases h with
  | skipped type open_ field_eq placed_eq placement =>
    simp only [type, TypeNode.canonical, placeBitfield, Setting.pure_lift, Except.bind_eq_ok]
    refine ⟨_, bitfieldOf_canonical field_eq, _, Bitfield.place_canonical placed_eq, (), rfl, ?_⟩
    -- Nothing is placed, and what is left open was opened by a canonical type.
    simp only [Bitfield.Placed.canonical, placement, Option.map_none]
    rfl
  | bitfield type open_ field_eq placed_eq placement =>
    simp only [type, TypeNode.canonical, placeBitfield, Setting.pure_lift, Except.bind_eq_ok]
    refine ⟨_, bitfieldOf_canonical field_eq, _, Bitfield.place_canonical placed_eq, (), rfl, ?_⟩
    simp only [Bitfield.Placed.canonical, placement, Option.map_some, StructState.canonical,
      List.map_append, List.map_cons, List.map_nil, bitfieldSlot_canonical, raisedBy_canonical]
    rfl
  | flexible type open_ named sized empty extent_eq offset_eq =>
    have hnatural := extent_canonical sized
    have hextent := Profile.memberExtent_canonical_ok extent_eq
    subst offset_eq
    simp only [type, TypeNode.canonical, placeFlexible, Setting.pure_lift, Member.member_measured,
      Except.bind_eq_ok]
    refine ⟨(), rfl, _, hnatural, _, hextent, ?_⟩
    simp only [Member.canonical_name, named, StructState.canonical, Bitfield.flush_canonical,
      List.map_append, List.map_cons, List.map_nil, ← valueSlot_canonical]
    rfl
  | value type open_ anonymous sized extent_eq offset_eq =>
    have hnatural := extent_canonical sized
    have hextent := Profile.memberExtent_canonical_ok extent_eq
    have hnested := nestedLayout_canonical sized anonymous
    subst offset_eq
    cases htype : x.type with
    | flexibleArray | bitfield =>
      rw [htype] at type
      cases type
    | primitive | aggregate | array | incomplete | unknown =>
      simp only [TypeNode.canonical, placeValue, Setting.pure_lift, Member.member_measured,
        Except.bind_eq_ok]
      refine ⟨(), rfl, _, hnatural, _, hextent, _, hnested, ?_⟩
      simp only [StructState.canonical, Bitfield.flush_canonical, List.map_append, List.map_cons,
        List.map_nil, ← valueSlot_canonical]
      rfl

/-- **A step over a union** is one of the plain walk over canonical types. -/
theorem UnionStep.canonical {s t : UnionState}
    (h : UnionStep p cap (SizedCanonically p) x s t) :
    placeInUnion Setting.pure p cap s.canonical (x.canonical.measured Setting.pure p) =
      .ok t.canonical := by
  refine Failure.within_eq_ok.mpr ?_
  rw [Member.member_measured, Member.canonical_type]
  cases h with
  | skipped type field_eq placed_eq placement =>
    simp only [type, TypeNode.canonical, overlayBitfield, Setting.pure_lift, Except.bind_eq_ok]
    refine ⟨_, bitfieldOf_canonical field_eq, _, Bitfield.place_canonical placed_eq, (), rfl, ?_⟩
    simp only [Bitfield.Placed.canonical, placement, Option.map_none]
    rfl
  | bitfield type field_eq placed_eq placement =>
    simp only [type, TypeNode.canonical, overlayBitfield, Setting.pure_lift, Except.bind_eq_ok]
    refine ⟨_, bitfieldOf_canonical field_eq, _, Bitfield.place_canonical placed_eq, (), rfl, ?_⟩
    simp only [Bitfield.Placed.canonical, placement, Option.map_some, raisedBy_canonical,
      bitfieldSlot_canonical, Bitfield.Placement.canonical_sizeIsFlag,
      UnionState.endIsFlag_reaching_canonical]
    simp only [UnionState.canonical, List.map_append, List.map_cons, List.map_nil]
    rfl
  | value type anonymous sized extent_eq =>
    have hnatural := extent_canonical sized
    have hextent := Profile.memberExtent_canonical_ok extent_eq
    have hnested := nestedLayout_canonical sized anonymous
    cases htype : x.type with
    | flexibleArray | bitfield =>
      rw [htype] at type
      cases type
    | primitive | aggregate | array | incomplete | unknown =>
      simp only [TypeNode.canonical, overlayValue, Setting.pure_lift, Member.member_measured,
        Except.bind_eq_ok]
      refine ⟨_, hnatural, _, hextent, _, hnested, ?_⟩
      simp only [Extent.canonical_sizeIsFlag, UnionState.endIsFlag_reaching_canonical]
      simp only [UnionState.canonical, List.map_append, List.map_cons, List.map_nil,
        ← valueSlot_canonical]
      rfl

/-- **A whole walk** is one of the plain walk over canonical types. -/
theorem Walk.foldlM_canonical {σ : Type} {step : Member → σ → σ → Prop} (view : σ → σ)
    {place : σ → Measured (Except Failure) → Except Failure σ}
    (hstep : ∀ x s t, step x s t → place (view s) (x.canonical.measured Setting.pure p) =
      .ok (view t)) {members : List Member} {s t : σ} (h : Walk step members s t) :
    (measureMembers Setting.pure p (canonicalMembers members)).foldlM place (view s) =
      .ok (view t) := by
  induction members generalizing s with
  | nil => exact congrArg (Except.ok ∘ view) h
  | cons x xs ih =>
    obtain ⟨u, hu, ht⟩ := h
    rw [canonicalMembers, measureMembers, List.foldlM_cons]
    exact Except.bind_eq_ok.mpr ⟨view u, hstep x s u hu, ih ht⟩

/-- The storage of members is that of canonical members. -/
theorem Sequenced.Comes.canonical {kind : AggregateKind} {members : List Member} {s : Sequenced}
    (h : s.Comes p cap (SizedCanonically p) kind members) :
    sequenceMembers Setting.pure p cap kind
      (measureMembers Setting.pure p (canonicalMembers members)) = .ok s.canonical := by
  cases h with
  | struct kind_eq walk =>
    subst kind_eq
    have hwalk := walk.foldlM_canonical StructState.canonical fun _ _ _ => StructStep.canonical
    refine (sequenceStruct_eq p cap _).trans (Except.map_eq_ok.mpr ⟨_, hwalk, ?_⟩)
    simp only [StructState.close, StructState.canonical, Bitfield.flush_canonical]
    rfl
  | union kind_eq walk =>
    subst kind_eq
    have hwalk := walk.foldlM_canonical UnionState.canonical fun _ _ _ => UnionStep.canonical
    exact (sequenceUnion_eq p cap _).trans (Except.map_eq_ok.mpr ⟨_, hwalk, rfl⟩)

end Walks

/-- **What a walk makes up is the layout of the canonical aggregate**, in canonical form. -/
theorem canonical_invariant (p : Profile) :
    LayoutInvariant p (TypeNode.TakesCanonically p) (Aggregate.LaysCanonically p) where
  primitive hx := by
    have hextent := Profile.primitiveExtent_canonical hx
    rwa [← Setting.pure_lift (p.primitiveExtent _)] at hextent
  array {e dims x count} hx hcount := by
    have hcount' := arrayCount_canonical hcount
    rw [TypeNode.TakesCanonically, TypeNode.canonical, TypeNode.measure, Setting.pure_lift]
    exact Except.bind_eq_ok.mpr ⟨count, hcount', Except.bind_eq_ok.mpr ⟨x.canonical, hx, rfl⟩⟩
  flexible {e x} hx hcheck := by
    rw [checkFlexibleElement, ← e.memberOnly?_canonical] at hcheck
    rw [TypeNode.TakesCanonically, TypeNode.canonical, TypeNode.measure, Setting.pure_lift]
    exact Except.bind_eq_ok.mpr ⟨(), hcheck, Except.bind_eq_ok.mpr ⟨x.canonical, hx, rfl⟩⟩
  aggregate {a r} hr := by
    refine Except.bind_eq_ok.mpr ⟨r.canonical, hr, ?_⟩
    rw [r.through_extent]
    rfl
  compute {a cap s r} hcap hcomes hfinish := by
    have hfinish' := Aggregate.finish_through (v := .canonical) a.canonical_kind a.canonical_name
      a.canonical_attributes s
    rw [hfinish] at hfinish'
    obtain ⟨kind, members, name, pack, attributes, origin⟩ := a
    rw [Aggregate.LaysCanonically, Aggregate.canonical, Aggregate.compute, Aggregate.layoutFrom,
      Setting.pure_lift]
    refine Except.bind_eq_ok.mpr ⟨cap, Aggregate.packCap_canonical hcap, ?_⟩
    refine Except.bind_eq_ok.mpr ⟨s.canonical, hcomes.canonical, ?_⟩
    rw [Setting.pure_lift]
    exact hfinish'

/-- A look-up tells no two types apart that have the same canonical form. -/
theorem canonical_keepable :
    Engine.Keepable fun p a r => Aggregate.LaysCanonically p a r ∧ a.sameKey a = true := by
  refine .of_same fun {p a b r} hkey hr => ?_
  rw [Aggregate.LaysCanonically, ← a.canonical_eq_of_sameKey b hkey]
  exact hr

/-- **The layouts of an engine are those of canonical types**: whatever an engine was asked before,
what it answers for an aggregate is the plain layout of the canonical aggregate, in canonical
form. -/
theorem Engine.layout_canonical {channels : Channels} {limit : Option Int} {calls : List Call}
    {p : Profile} {a : Aggregate} {r : LayoutResult}
    (h : ((layout p (.aggregate a)).run ((make channels limit).replay calls)).1 = .ok r) :
    layoutOf p (.aggregate a.canonical) = .ok r.canonical := by
  have hlays := layout_ensures canonical_keepable
    (fun p => (canonical_invariant p).and (selfKey_invariant p)) h
  exact Failure.within_eq_ok.mpr hlays.1

/-- Some engine answers with `r` for an aggregate, with whatever it was asked before. -/
def Engine.MayAnswer (p : Profile) (a : Aggregate) (r : LayoutResult) : Prop :=
  ∃ channels limit calls,
    ((layout p (.aggregate a)).run ((make channels limit).replay calls)).1 = .ok r

/-- What engines answer is laid out plainly for the canonical aggregate. -/
theorem Engine.MayAnswer.canonical {p : Profile} {a : Aggregate} {r : LayoutResult}
    (h : MayAnswer p a r) : layoutOf p (.aggregate a.canonical) = .ok r.canonical := by
  obtain ⟨_, _, _, hr⟩ := h
  exact layout_canonical hr

end RecordLayout
