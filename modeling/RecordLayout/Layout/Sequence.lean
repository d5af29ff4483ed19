import RecordLayout.Layout.Bitfield
import RecordLayout.Layout.Result

/-!
# Laying out an aggregate

The members of a struct are placed one after another, those of a union all at its start.  The walk
over the members knows each member's type only through a `Measure`: how much room the type needs,
and its full layout.  It runs in any monad that offers a `Setting`: a way to fail, a way to name the
member a failure passed through, a store of earlier results, and a place for notes.  With the
trivial setting of `Except` this is the layout itself (`layoutOf`); the caching engine runs the same
walk in a setting of its own.

## Main definitions

* `Setting` is what a layout asks of its surroundings;
* `Slot` is the storage of one direct member, with the fields promoted from it;
* `placeInStruct` and `placeInUnion` are the steps of the walk;
* `TypeNode.measure` measures every type;
* `layoutOf` is the layout of a type under a profile.
-/

namespace RecordLayout

/-- What a layout asks of its surroundings. -/
structure Setting (m : Type → Type) where
  /-- Gives up. -/
  fail : {α : Type} → Failure → m α
  /-- Runs a computation on behalf of the member of this name. -/
  within : {α : Type} → String → m α → m α
  /-- Recalls the layout of a node, or computes and keeps it. -/
  fetch : TypeNode → m LayoutResult → m LayoutResult
  /-- Takes notes on bitfields. -/
  note : List String → m Unit

/-- The result of a check in a setting. -/
def Setting.lift {m : Type → Type} [Monad m] (S : Setting m) {α : Type} :
    Except Failure α → m α
  | .ok a => pure a
  | .error f => S.fail f

/-- What a walk over members knows of a type: its extent without attributes, and how to compute its
layout. -/
structure Measure (m : Type → Type) where
  extent : m Extent
  compute : m LayoutResult

/-- A member whose type has been measured. -/
structure Measured (m : Type → Type) where
  member : Member
  measure : Measure m

/-- The storage of a direct member.  A bitfield without a name takes storage but is not listed among
the members of the layout. -/
structure Slot where
  placed : MemberLayout
  promoted : List MemberLayout
  listed : Bool

/-- What a slot contributes to the members of the layout. -/
def Slot.members (s : Slot) : List MemberLayout :=
  if s.listed then s.placed :: s.promoted else []

/-- The state between two members of a struct. -/
structure StructState where
  /-- The storage of the members so far, in the order of declaration. -/
  slots : List Slot
  /-- The number of members so far. -/
  count : Nat
  cursor : Int
  alignment : Int
  /-- The open-ended array that ended the struct, if there was one. -/
  flexible : Option String
  unit : Option Bitfield.OpenUnit

/-- The state before the first member. -/
def StructState.start : StructState := ⟨[], 0, 0, 1, none, none⟩

/-- The members of an aggregate once all of them are placed. -/
structure Sequenced where
  slots : List Slot
  endOffset : Int
  alignment : Int
  /-- Whether the end is the size of a member, and that was written as a flag. -/
  endIsFlag : Bool := false

/-- The members of the layout. -/
def Sequenced.members (s : Sequenced) : List MemberLayout := s.slots.flatMap Slot.members

/-- The key of a member: its name, or its position when it has none. -/
def memberKey (m : Member) (index : Nat) : String :=
  match m.name with
  | some name => name
  | none => s!"<anonymous {index}>"

/-- The name that a failure in a member passes through; unnamed members add none. -/
def Member.pathName (m : Member) : String := m.name.getD ""

/-- The fields of an unnamed aggregate at `offset` that are visible around it. -/
def promotedFrom (offset : Int) (nested : LayoutResult) : List MemberLayout :=
  (nested.members.filter fun f => f.name.isSome).map (MemberLayout.translated offset)

/-- The slot of a member that is no bitfield. -/
def valueSlot (member : Member) (index : Nat) (offset padding : Int) (extent : Extent)
    (nested : Option LayoutResult) : Slot where
  placed :=
    { key := memberKey member index
      name := member.name
      type := member.type
      byteOffset := offset
      size := extent.size
      alignment := extent.alignment
      bits := none
      paddingBefore := padding
      promoted := false
      layout := nested
      sizeIsFlag := extent.sizeIsFlag }
  promoted :=
    match member.name, nested with
    | none, some r => promotedFrom offset r
    | _, _ => []
  listed := true

/-- The slot of a bitfield. -/
def bitfieldSlot (member : Member) (p : Bitfield.Placement) : Slot where
  placed :=
    { key := member.name.getD ""
      name := member.name
      type := member.type
      byteOffset := p.byteOffset
      size := p.unitSize
      alignment := p.alignment
      bits := some ⟨p.bitOffset, p.bitWidth⟩
      paddingBefore := p.paddingBefore
      promoted := false
      layout := none
      sizeIsFlag := p.sizeIsFlag }
  promoted := []
  listed := member.name.isSome

/-- The field that a bitfield member places. -/
def bitfieldOf (p : Profile) (member : Member) (cap : Option Int) (base : Primitive)
    (width : Json) : Except Failure Bitfield.Field := do
  if member.attributes.requested?.isSome then throw (.ofCause .alignedBitfield)
  let natural ← p.primitiveExtent base
  return {
    name := member.name
    base
    extent := natural.capped (member.cap cap)
    natural := natural.alignment
    width }

/-- Whether the alignment of a bitfield counts for its aggregate: in bits packing that of an unnamed
one does not. -/
def bitfieldAligns (p : Profile) (member : Member) : Bool :=
  member.name.isSome || p.packing != .bits

/-- An alignment that a placed bitfield may raise. -/
def raisedBy (p : Profile) (member : Member) (placement : Bitfield.Placement) (alignment : Int) :
    Int :=
  if bitfieldAligns p member then max alignment placement.alignment else alignment

section

variable {m : Type → Type} [Monad m] (S : Setting m) (p : Profile) (cap : Option Int)

/-- The layout that the member's own type has, when it is an aggregate.  An unnamed member must be
one. -/
def nestedLayout (x : Measured m) : m (Option LayoutResult) :=
  match x.member.type with
  | .aggregate _ => do
    let r ← S.fetch x.member.type x.measure.compute
    return some r
  | _ => if x.member.isAnonymous then S.fail (.ofCause .unnamedMember) else pure none

/-- A bitfield in a struct. -/
def placeBitfield (s : StructState) (member : Member) (base : Primitive) (width : Json) :
    m StructState := do
  let field ← S.lift (bitfieldOf p member cap base width)
  let placed ← S.lift (Bitfield.place p field s.cursor s.unit)
  S.note placed.notes
  match placed.placement with
  -- A width of zero is no member, but it counts for the keys of the unnamed members after it.
  | none => return { s with count := s.count + 1, cursor := placed.cursor, unit := placed.unit }
  | some placement =>
    return { s with
      slots := s.slots ++ [bitfieldSlot member placement]
      count := s.count + 1
      cursor := placed.cursor
      alignment := raisedBy p member placement s.alignment
      unit := placed.unit }

/-- An open-ended array in a struct.  It needs a name, and no member may follow it. -/
def placeFlexible (s : StructState) (x : Measured m) : m StructState := do
  let flushed := Bitfield.flush p s.cursor s.unit
  S.note flushed.notes
  let natural ← x.measure.extent
  let extent ← S.lift (p.memberExtent x.member cap natural)
  let offset := Number.roundUp flushed.cursor extent.alignment
  -- The element is measured first: of two faults, that of the element is reported.
  match x.member.name with
  | none => S.fail (.ofCause .unnamedFlexibleArray)
  | some name =>
    return { s with
      slots := s.slots ++ [valueSlot x.member s.count offset (offset - flushed.cursor) extent none]
      count := s.count + 1
      cursor := offset
      alignment := max s.alignment extent.alignment
      flexible := some name
      unit := none }

/-- Any other member of a struct: it closes the open unit and goes to the next aligned place. -/
def placeValue (s : StructState) (x : Measured m) : m StructState := do
  let flushed := Bitfield.flush p s.cursor s.unit
  S.note flushed.notes
  let natural ← x.measure.extent
  let extent ← S.lift (p.memberExtent x.member cap natural)
  let offset := Number.roundUp flushed.cursor extent.alignment
  -- The extent is known by now, so a fault inside the type has been reported by it.
  let nested ← nestedLayout S x
  return { s with
    slots := s.slots ++ [valueSlot x.member s.count offset (offset - flushed.cursor) extent nested]
    count := s.count + 1
    cursor := offset + extent.size
    alignment := max s.alignment extent.alignment
    unit := none }

/-- One member of a struct. -/
def placeInStruct (s : StructState) (x : Measured m) : m StructState :=
  S.within x.member.pathName <|
    match s.flexible with
    | some name => S.fail (.ofCause (.afterFlexibleArray name))
    | none =>
      match x.member.type with
      | .bitfield base width => placeBitfield S p cap s x.member base width
      | .flexibleArray _ => placeFlexible S p cap s x
      | _ => placeValue S p cap s x

/-- The members of a struct. -/
def sequenceStruct (xs : List (Measured m)) : m Sequenced := do
  let s ← xs.foldlM (placeInStruct S p cap) .start
  -- A unit that is open at the end still takes up its storage.
  let flushed := Bitfield.flush p s.cursor s.unit
  S.note flushed.notes
  return { slots := s.slots, endOffset := flushed.cursor, alignment := s.alignment }

/-- The state between two members of a union. -/
structure UnionState where
  slots : List Slot
  count : Nat
  endOffset : Int
  alignment : Int
  /-- Whether the member that gave the end has a size that was written as a flag. -/
  endIsFlag : Bool

/-- The state before the first member. -/
def UnionState.start : UnionState := ⟨[], 0, 0, 1, false⟩

/-- The state after storage of a size, which takes the end with it when it reaches further. -/
def UnionState.reaching (s : UnionState) (size : Int) (sizeIsFlag : Bool) : UnionState :=
  { s with
    endOffset := max s.endOffset size
    endIsFlag := if s.endOffset < size then sizeIsFlag else s.endIsFlag }

/-- A bitfield in a union starts a storage unit of its own. -/
def overlayBitfield (s : UnionState) (member : Member) (base : Primitive) (width : Json) :
    m UnionState := do
  let field ← S.lift (bitfieldOf p member cap base width)
  let placed ← S.lift (Bitfield.place p field 0 none)
  S.note placed.notes
  match placed.placement with
  | none => return { s with count := s.count + 1 }
  | some placement =>
    return { s.reaching placement.unitSize placement.sizeIsFlag with
      slots := s.slots ++ [bitfieldSlot member placement]
      count := s.count + 1
      alignment := raisedBy p member placement s.alignment }

/-- Any other member of a union starts where the union does. -/
def overlayValue (s : UnionState) (x : Measured m) : m UnionState := do
  let natural ← x.measure.extent
  let extent ← S.lift (p.memberExtent x.member cap natural)
  let nested ← nestedLayout S x
  return { s.reaching extent.size extent.sizeIsFlag with
    slots := s.slots ++ [valueSlot x.member s.count 0 0 extent nested]
    count := s.count + 1
    alignment := max s.alignment extent.alignment }

/-- One member of a union. -/
def placeInUnion (s : UnionState) (x : Measured m) : m UnionState :=
  S.within x.member.pathName <|
    match x.member.type with
    | .flexibleArray _ => S.fail (.ofCause .flexibleArrayInUnion)
    | .bitfield base width => overlayBitfield S p cap s x.member base width
    | _ => overlayValue S p cap s x

/-- The members of a union. -/
def sequenceUnion (xs : List (Measured m)) : m Sequenced := do
  let s ← xs.foldlM (placeInUnion S p cap) .start
  return ⟨s.slots, s.endOffset, s.alignment, s.endIsFlag⟩

/-- The members of an aggregate. -/
def sequenceMembers (kind : AggregateKind) (xs : List (Measured m)) : m Sequenced :=
  match kind with
  | .struct => sequenceStruct S p cap xs
  | .union => sequenceUnion S p cap xs

end

/-- The alignment of an aggregate, raised by an alignment that it requests itself. -/
def Aggregate.alignmentFrom (a : Aggregate) (alignment : Int) : Except Failure Int :=
  match a.attributes.requested? with
  | none => .ok alignment
  | some requested =>
    (checkAligned requested (a.kind.keyword ++ " " ++ nameOrAnonymous a.name)).map fun _ =>
      max alignment requested

/-- The layout of an aggregate whose members are placed: its size is rounded up to its
alignment. -/
def Aggregate.finish (a : Aggregate) (s : Sequenced) : Except Failure LayoutResult :=
  (a.alignmentFrom s.alignment).map fun alignment =>
    -- What rounding adds is the tail padding.
    let size := Number.roundUp s.endOffset alignment
    { kind := .aggregate a.kind
      name := a.name
      size
      alignment
      members := s.members
      tailPadding := size - s.endOffset
      -- Rounding makes another number of the size, unless there is nothing to round to.
      sizeIsFlag := s.endIsFlag && alignment ≤ 1 }

section

variable {m : Type → Type} [Monad m] (S : Setting m) (p : Profile)

/-- The layout of an aggregate whose members are measured. -/
def Aggregate.layoutFrom (a : Aggregate) (xs : List (Measured m)) : m LayoutResult := do
  let cap ← S.lift a.packCap
  let s ← sequenceMembers S p cap a.kind xs
  S.lift (a.finish s)

/-- The layout of a type that is laid out by its extent alone. -/
def plainLayout (kind : ResultKind) (node : TypeNode) (extent : m Extent) : m LayoutResult := do
  let x ← extent
  return .ofExtent kind node.describe x

/-- A type that has no layout and, if it may be a member, no more than an extent. -/
def Measure.failing (extent : m Extent) (c : LayoutError.Cause) : Measure m :=
  ⟨extent, S.fail (.ofCause c)⟩

mutual
/-- Measures a type. -/
def TypeNode.measure : TypeNode → Measure m
  | .primitive q =>
    let extent := S.lift (p.primitiveExtent q)
    ⟨extent, plainLayout .scalar (.primitive q) extent⟩
  | .array e dims =>
    -- The element is measured outside of the check, which keeps the recursion structural.
    let inner := e.measure.extent
    let extent := do
      let count ← S.lift (arrayCount e dims)
      let x ← inner
      return { size := x.size * count, alignment := x.alignment }
    ⟨extent, plainLayout .array (.array e dims) extent⟩
  | .flexibleArray e =>
    let inner := e.measure.extent
    let extent := do
      S.lift (checkFlexibleElement e)
      let x ← inner
      return { size := 0, alignment := x.alignment }
    .failing S extent (.memberOnly "FlexibleArray")
  | .bitfield base _ =>
    .failing S (S.lift (p.primitiveExtent base)) (.memberOnly "Bitfield")
  | .incomplete label =>
    .failing S (S.fail (.ofCause (.incompleteType label.text))) (.incompleteType label.text)
  | .unknown kind =>
    .failing S (S.fail (.ofCause (.unknownNode kind))) (.unknownNode kind)
  | .aggregate a =>
    let compute := a.compute
    let extent := do
      let r ← S.fetch (.aggregate a) compute
      return r.extent
    ⟨extent, compute⟩

/-- Computes the layout of an aggregate. -/
def Aggregate.compute : Aggregate → m LayoutResult
  | ⟨kind, members, name, pack, attributes, origin⟩ =>
    Aggregate.layoutFrom S p ⟨kind, members, name, pack, attributes, origin⟩
      (measureMembers members)

/-- Measures the types of members. -/
def measureMembers : List Member → List (Measured m)
  | [] => []
  | x :: xs => x.measured :: measureMembers xs

/-- Measures the type of a member. -/
def Member.measured : Member → Measured m
  | ⟨type, name, attributes⟩ => ⟨⟨type, name, attributes⟩, type.measure⟩
end

@[simp] theorem Member.member_measured (x : Member) : (x.measured S p).member = x := by
  cases x
  rfl

theorem measureMembers_eq_map (xs : List Member) :
    measureMembers S p xs = xs.map (Member.measured S p) := by
  induction xs with
  | nil => rfl
  | cons x xs ih => simp [measureMembers, ih]

end

/-- The name that a failure passes through at the root: that of an aggregate. -/
def TypeNode.rootName : TypeNode → String
  | .aggregate a => a.name.getD ""
  | _ => ""

/-- The setting that neither keeps results nor takes notes. -/
def Setting.pure : Setting (Except Failure) where
  fail := .error
  within := Failure.within
  fetch _ compute := compute
  note _ := .ok ()

@[simp] theorem Setting.pure_lift {α : Type} (x : Except Failure α) : Setting.pure.lift x = x := by
  cases x <;> rfl

/-- The layout of a type under a profile. -/
def layoutOf (p : Profile) (node : TypeNode) : Except Failure LayoutResult :=
  Failure.within node.rootName (node.measure Setting.pure p).compute

end RecordLayout
