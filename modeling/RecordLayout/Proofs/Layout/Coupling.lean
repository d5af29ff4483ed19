import RecordLayout.Proofs.Layout.View
import RecordLayout.Proofs.Outcome
import RecordLayout.Proofs.TypeTree.Bare

/-!
# Two walks side by side

The walk over the members of an aggregate runs in any setting and under any profile.  Two such walks
are compared step by step: they go over two lists of members, in two settings that may belong to two
monads, under two profiles.  A walk looks at the type of a member only to see in which way it is
placed, at its extent, and at the layout that is nested in it; when these correspond on both sides,
so do the two layouts that come out.  What it means that two layouts correspond is that the same is
seen of both, each looked at through a view.

All that two settings have to show is that their operations keep a relation between computations
(`Coupling`).  A setting may be a plain one or that of an engine, so that what is known of plain
layouts is carried over to engines by the same argument.

## Main definitions

* `TypeNode.SameForm` says that two types are placed in the same way when they are members;
* `Comparison` has two profiles with a view of the layouts under each;
* `Coupling` has the laws of two settings whose computations are related;
* `Coupling.Measures` and `Coupling.Knows` say what is shown of two types, and of two members.

## Main results

* `Coupling.relates_placeInStruct`, `Coupling.relates_placeInUnion`: one step;
* `Coupling.relates_sequenceMembers`, `Coupling.relates_compute`: the members of an aggregate;
* `Coupling.Measures.array` and its siblings: the rules for types, one for each way to make one;
* `Coupling.plain`: plain layouts, with any relation between failures.
-/

namespace RecordLayout

/-! ## Members that are placed in the same way -/

/-- A type of members that are values and have no layout of their own. -/
structure TypeNode.IsValue (t : TypeNode) : Prop where
  standalone : t.memberOnly? = none
  plain : t.asAggregate? = none

/-- Two types are placed in the same way when they are members. -/
inductive TypeNode.SameForm : TypeNode → TypeNode → Prop
  | value {t u : TypeNode} (left : t.IsValue) (right : u.IsValue) : SameForm t u
  | aggregate (a b : Aggregate) : SameForm (.aggregate a) (.aggregate b)
  | flexibleArray (e e' : TypeNode) : SameForm (.flexibleArray e) (.flexibleArray e')
  | bitfield (base : Primitive) (width : Json) :
      SameForm (.bitfield base width) (.bitfield base width)

theorem TypeNode.SameForm.refl (t : TypeNode) : t.SameForm t := by
  cases t with
  | aggregate a => exact .aggregate a a
  | flexibleArray e => exact .flexibleArray e e
  | bitfield base width => exact .bitfield base width
  | primitive | array | incomplete | unknown => exact .value ⟨rfl, rfl⟩ ⟨rfl, rfl⟩

theorem TypeNode.SameForm.memberOnly?_eq {t u : TypeNode} (h : t.SameForm u) :
    u.memberOnly? = t.memberOnly? := by
  cases h with
  | value left right => rw [left.standalone, right.standalone]
  | aggregate | flexibleArray | bitfield => rfl

/-- Types that are equal up to origins are placed in the same way. -/
theorem TypeNode.sameForm_bare (t : TypeNode) : t.bare.SameForm t := by
  cases t with
  | aggregate a => exact .aggregate a.bare a
  | flexibleArray e => exact .flexibleArray e.bare e
  | bitfield base width => exact .bitfield base width
  | primitive | array | incomplete | unknown => exact .value ⟨rfl, rfl⟩ ⟨rfl, rfl⟩

section Forms

variable {m : Type → Type} [Monad m] {S : Setting m} {p : Profile} {cap : Option Int} {x : Member}

/-- A member that is no aggregate has no layout nested in it, and must have a name. -/
theorem nestedLayout_of_plain (h : x.type.asAggregate? = none) :
    nestedLayout S (x.measured S p) =
      if x.name.isNone then S.fail (.ofCause .unnamedMember) else pure none := by
  obtain ⟨type, name, attributes⟩ := x
  cases type with
  | aggregate => cases h
  | primitive | array | flexibleArray | bitfield | incomplete | unknown => rfl

theorem measure_measured : (x.measured S p).measure = x.type.measure S p := by
  cases x
  rfl

/-- A member that can stand alone is placed as a value. -/
theorem placeInStruct_of_standalone (h : x.type.memberOnly? = none) (s : StructState) :
    placeInStruct S p cap s (x.measured S p) =
      S.within x.pathName (match s.flexible with
        | some name => S.fail (.ofCause (.afterFlexibleArray name))
        | none => placeValue S p cap s (x.measured S p)) := by
  obtain ⟨type, name, attributes⟩ := x
  cases type with
  | flexibleArray | bitfield => cases h
  | primitive | aggregate | array | incomplete | unknown => rfl

theorem placeInUnion_of_standalone (h : x.type.memberOnly? = none) (s : UnionState) :
    placeInUnion S p cap s (x.measured S p) =
      S.within x.pathName (overlayValue S p cap s (x.measured S p)) := by
  obtain ⟨type, name, attributes⟩ := x
  cases type with
  | flexibleArray | bitfield => cases h
  | primitive | aggregate | array | incomplete | unknown => rfl

end Forms

/-! ## What is compared -/

/-- Two places in the same storage, of which the same bits are seen. -/
inductive Bitfield.Placement.SeenAs (left right : View) (place : Placement) : Placement → Prop
  | intro (bit : Int)
      (bits : right.bits place.byteOffset place.unitSize ⟨bit, place.bitWidth⟩ =
        left.bits place.byteOffset place.unitSize ⟨place.bitOffset, place.bitWidth⟩) :
      SeenAs left right place { place with bitOffset := bit }

/-- Two placed fields, of whose places the same is seen. -/
inductive Bitfield.Placed.SeenAs (left right : View) (placed : Placed) : Placed → Prop
  | intro (placement : Option Placement)
      (places : Option.Rel (Placement.SeenAs left right) placed.placement placement) :
      SeenAs left right placed { placed with placement }

theorem Bitfield.Placed.SeenAs.refl {left right : View}
    (bits : ∀ byteOffset size, right.bits byteOffset size = left.bits byteOffset size)
    (placed : Placed) : SeenAs left right placed placed := by
  refine .intro placed.placement ?_
  cases placed.placement with
  | none => exact .none
  | some place => exact .some (.intro place.bitOffset (by rw [bits]))

/-- Through views that do not change bits a field is placed as it is. -/
theorem Bitfield.rel_place (left right : View)
    (bits : ∀ byteOffset size, right.bits byteOffset size = left.bits byteOffset size) (p : Profile)
    (f : Field) (cursor : Int) (unit : Option OpenUnit) :
    Except.Rel Eq (Placed.SeenAs left right) (place p f cursor unit) (place p f cursor unit) :=
  .refl (fun _ => rfl) fun placed _ => .refl bits placed

/-- A view of the layouts under `p` and one of those under `q` can be compared: both profiles put
bitfields into the same storage, and the same is seen of their bits. -/
structure View.Comparable (p q : Profile) (left right : View) : Prop where
  left_local : left.IsLocal
  right_local : right.IsLocal
  left_flags : left.flags = true
  right_flags : right.flags = true
  describe : ∀ {t u}, right.type u = left.type t →
    right.shortName (some u.describe) = left.shortName (some t.describe)
  packing : q.packing = p.packing
  place : ∀ f cursor unit, Except.Rel Eq (Bitfield.Placed.SeenAs left right)
    (Bitfield.place p f cursor unit) (Bitfield.place q f cursor unit)

/-- Two profiles, with a view of the layouts under each. -/
structure Comparison (p q : Profile) where
  left : View
  right : View
  comparable : View.Comparable p q left right

namespace Comparison

variable {p q : Profile} (C : Comparison p q)

/-- The same is seen of two types. -/
def Types (t u : TypeNode) : Prop := C.right.type u = C.left.type t

/-- The same is seen of two layouts. -/
def Layouts (r r' : LayoutResult) : Prop := r'.through C.right = r.through C.left

/-- The same is seen of two nested layouts, if there are any. -/
def Nested (nested nested' : Option LayoutResult) : Prop :=
  nested'.map (LayoutResult.through C.right) = nested.map (LayoutResult.through C.left)

/-- The same is seen of the slots in two lists. -/
def Slots (slots slots' : List Slot) : Prop :=
  slots'.map (Slot.through C.right) = slots.map (Slot.through C.left)

/-- Two states of a walk over a struct that differ in what is not seen of their slots. -/
inductive StructStates (s : StructState) : StructState → Prop
  | intro (slots : List Slot) (seen : C.Slots s.slots slots) : StructStates s { s with slots }

/-- Two states of a walk over a union that differ in what is not seen of their slots. -/
inductive UnionStates (s : UnionState) : UnionState → Prop
  | intro (slots : List Slot) (seen : C.Slots s.slots slots) : UnionStates s { s with slots }

/-- Two sequences of placed members that differ in what is not seen of their slots. -/
inductive Sequences (s : Sequenced) : Sequenced → Prop
  | intro (slots : List Slot) (seen : C.Slots s.slots slots) : Sequences s { s with slots }

theorem nested_none : C.Nested none none := rfl

include C in
theorem flush (cursor : Int) (unit : Option Bitfield.OpenUnit) :
    Bitfield.flush q cursor unit = Bitfield.flush p cursor unit := by
  cases unit with
  | none => rfl
  | some u => simp only [Bitfield.flush, Bitfield.OpenUnit.endByte, C.comparable.packing]

include C in
theorem raisedBy_eq {x y : Member} (name : y.name = x.name) (place : Bitfield.Placement)
    (alignment : Int) : raisedBy q y place alignment = raisedBy p x place alignment := by
  unfold raisedBy bitfieldAligns
  rw [name, C.comparable.packing]

variable {C}

theorem Layouts.extent_eq {r r' : LayoutResult} (h : C.Layouts r r') : r'.extent = r.extent := by
  have hextent := congrArg LayoutResult.extent h
  rwa [LayoutResult.through_extent, LayoutResult.through_extent,
    Extent.through_of_flags C.comparable.right_flags,
    Extent.through_of_flags C.comparable.left_flags] at hextent

/-- One slot more on either side. -/
theorem Slots.concat {slots slots' : List Slot} {t t' : Slot} (h : C.Slots slots slots')
    (ht : t'.through C.right = t.through C.left) : C.Slots (slots ++ [t]) (slots' ++ [t']) := by
  rw [Slots, List.map_append, List.map_append, h, List.map_singleton, List.map_singleton, ht]

/-- What is seen of the slot of a value comes from what is seen of its type and of the layout that
is nested in it. -/
theorem Slots.concat_value {slots slots' : List Slot} (h : C.Slots slots slots') {x y : Member}
    (name : y.name = x.name) (type : C.Types x.type y.type) {nested nested' : Option LayoutResult}
    (hnested : C.Nested nested nested') (index : Nat) (offset padding : Int) (extent : Extent) :
    C.Slots (slots ++ [valueSlot x index offset padding extent nested])
      (slots' ++ [valueSlot y index offset padding extent nested']) := by
  have hleft := valueSlot_through C.comparable.left_local (x := x)
    (y := { x with type := C.left.type x.type }) rfl rfl index offset padding extent nested
  have hright := valueSlot_through C.comparable.right_local (x := y)
    (y := { x with type := C.left.type x.type }) name.symm type.symm index offset padding extent
    nested'
  rw [Extent.through_of_flags C.comparable.left_flags] at hleft
  rw [Extent.through_of_flags C.comparable.right_flags, hnested] at hright
  exact h.concat (hright.symm.trans hleft)

theorem Slots.concat_bitfield {slots slots' : List Slot} (h : C.Slots slots slots') {x y : Member}
    (name : y.name = x.name) (type : C.Types x.type y.type) {place place' : Bitfield.Placement}
    (hplace : place.SeenAs C.left C.right place') :
    C.Slots (slots ++ [bitfieldSlot x place]) (slots' ++ [bitfieldSlot y place']) := by
  have htype : C.right.type y.type = C.left.type x.type := type
  obtain ⟨bit, hbits⟩ := hplace
  refine h.concat ?_
  simp only [Slot.through, bitfieldSlot, MemberLayout.through, name, htype, hbits,
    C.comparable.left_flags, C.comparable.right_flags, nestedThrough, List.map_nil, Option.map_some]

/-- **Finishing two aggregates** that are written alike. -/
theorem Sequences.finish {a b : Aggregate} (kind : b.kind = a.kind) (name : b.name = a.name)
    (attributes : b.attributes = a.attributes) {s s' : Sequenced} (h : C.Sequences s s') :
    Except.Rel Eq C.Layouts (a.finish s) (b.finish s') := by
  obtain ⟨slots, hslots⟩ := h
  have hslots' : slots.map (Slot.through C.right) = s.slots.map (Slot.through C.left) := hslots
  have hseen : Sequenced.through C.right { s with slots } = s.through C.left := by
    simp only [Sequenced.through, C.comparable.left_flags, C.comparable.right_flags, hslots']
  have hleft := Aggregate.finish_through (v := C.left) kind name attributes s
  have hright := Aggregate.finish_through (v := C.right) (a := b) (b := b) rfl rfl rfl
    { s with slots }
  rw [hseen, hleft] at hright
  exact Except.rel_eq_iff.mpr hright.symm

end Comparison

/-! ## Two walks -/

/-- The laws of two settings, the first under `p` and the second under `q`, whose computations are
related: `Relates R x y` says how `x` and `y` compare when `R` compares what they return.  Look-ups
are compared for the pairs of aggregates in `F` only. -/
structure Coupling {m n : Type → Type} [Monad m] [Monad n] (S : Setting m) (T : Setting n)
    {p q : Profile} (C : Comparison p q) (F : Aggregate → Aggregate → Prop) where
  Relates : {α β : Type} → (α → β → Prop) → m α → n β → Prop
  of_pure : ∀ {α β : Type} {R : α → β → Prop} {a : α} {b : β}, R a b → Relates R (pure a) (pure b)
  bind : ∀ {α β γ δ : Type} {R : α → β → Prop} {Q : γ → δ → Prop} {x : m α} {y : n β}
    {h : α → m γ} {k : β → n δ}, Relates R x y → (∀ a b, R a b → Relates Q (h a) (k b)) →
    Relates Q (x >>= h) (y >>= k)
  fail : ∀ {α β : Type} {R : α → β → Prop} (e : Failure), Relates R (S.fail e) (T.fail e)
  within : ∀ {α β : Type} {R : α → β → Prop} {x : m α} {y : n β} (name : String), Relates R x y →
    Relates R (S.within name x) (T.within name y)
  note : ∀ (messages : List String), Relates Eq (S.note messages) (T.note messages)
  fetch : ∀ {a b : Aggregate}, F a b → Relates C.Layouts (a.compute S p) (b.compute T q) →
    Relates C.Layouts (S.fetch (.aggregate a) (a.compute S p))
      (T.fetch (.aggregate b) (b.compute T q))

namespace Coupling

variable {m n : Type → Type} [Monad m] [Monad n] {S : Setting m} {T : Setting n} {p q : Profile}
  {C : Comparison p q} {F : Aggregate → Aggregate → Prop} (L : Coupling S T C F) {cap : Option Int}

/-- Checks that come to something related. -/
theorem lift {α β : Type} {R : α → β → Prop} {x : Except Failure α} {y : Except Failure β}
    (h : Except.Rel Eq R x y) : L.Relates R (S.lift x) (T.lift y) := by
  cases h with
  | ok related => exact L.of_pure related
  | error same => exact same ▸ L.fail _

/-- Checks that come to the same. -/
theorem lift_eq {α : Type} {x y : Except Failure α} (h : y = x) :
    L.Relates Eq (S.lift x) (T.lift y) :=
  L.lift (h ▸ .refl (fun _ => rfl) fun _ _ => rfl)

theorem foldlM {α β γ δ : Type} {P : γ → δ → Prop} {R : α → β → Prop} {f : α → γ → m α}
    {g : β → δ → n β} (hfg : ∀ c d a b, P c d → R a b → L.Relates R (f a c) (g b d)) {xs : List γ}
    {ys : List δ} (h : List.Forall₂ P xs ys) {a : α} {b : β} (hab : R a b) :
    L.Relates R (xs.foldlM f a) (ys.foldlM g b) := by
  induction h generalizing a b with
  | nil => exact L.of_pure hab
  | cons hcd _ ih =>
    rw [List.foldlM_cons, List.foldlM_cons]
    exact L.bind (hfg _ _ a b hcd hab) fun a' b' hab' => ih hab'

/-- What is shown of two types: their extents and their layouts correspond. -/
structure Measures (t u : TypeNode) : Prop where
  extent : L.Relates Eq (t.measure S p).extent (u.measure T q).extent
  compute : L.Relates C.Layouts (t.measure S p).compute (u.measure T q).compute

/-- What the walks have to know of two members: they are written alike, their types are placed in
the same way and correspond, and their attributes come to the same. -/
structure Knows (x y : Member) : Prop where
  name : y.name = x.name
  attributes : y.attributes = x.attributes
  type : C.Types x.type y.type
  form : x.type.SameForm y.type
  capped : ∀ cap natural, q.memberExtent y cap natural = p.memberExtent x cap natural
  base : ∀ base width, x.type = .bitfield base width →
    q.primitiveExtent base = p.primitiveExtent base
  fetched : ∀ a b, x.type = .aggregate a → y.type = .aggregate b → F a b
  measures : L.Measures x.type y.type

variable {L} {x y : Member}

namespace Knows

theorem extent (h : L.Knows x y) :
    L.Relates Eq (x.measured S p).measure.extent (y.measured T q).measure.extent := by
  rw [measure_measured, measure_measured]
  exact h.measures.extent

/-- Only an aggregate member is looked up for its layout; any other one must have a name. -/
theorem nested (h : L.Knows x y) :
    L.Relates C.Nested (nestedLayout S (x.measured S p)) (nestedLayout T (y.measured T q)) := by
  have hplain (hx : x.type.asAggregate? = none) (hy : y.type.asAggregate? = none) :
      L.Relates C.Nested (nestedLayout S (x.measured S p)) (nestedLayout T (y.measured T q)) := by
    rw [nestedLayout_of_plain hx, nestedLayout_of_plain hy, h.name]
    split
    · exact L.fail _
    · exact L.of_pure rfl
  obtain ⟨type, name, attributes⟩ := x
  obtain ⟨type', name', attributes'⟩ := y
  obtain ⟨-, -, -, hform, -, -, hfetched, hmeasures⟩ := h
  cases hform with
  | value left right => exact hplain left.plain right.plain
  | aggregate a b =>
    refine L.bind (L.fetch (hfetched a b rfl rfl) hmeasures.compute) fun r r' hr => ?_
    exact L.of_pure (congrArg some hr)
  | flexibleArray | bitfield => exact hplain rfl rfl

theorem bitfieldOf_eq (h : L.Knows x y) {base : Primitive} {width : Json}
    (type : x.type = .bitfield base width) :
    bitfieldOf q y cap base width = bitfieldOf p x cap base width := by
  simp only [bitfieldOf, Member.cap, h.name, h.attributes, h.base base width type]

end Knows

/-! ### Steps -/

variable {s s' : StructState} {w w' : UnionState}

theorem relates_placeBitfield (h : L.Knows x y) (hs : C.StructStates s s') {base : Primitive}
    {width : Json} (type : x.type = .bitfield base width) :
    L.Relates C.StructStates (placeBitfield S p cap s x base width)
      (placeBitfield T q cap s' y base width) := by
  obtain ⟨slots, hslots⟩ := hs
  refine L.bind (L.lift_eq (h.bitfieldOf_eq type)) fun field _ hfield => ?_
  subst hfield
  refine L.bind (L.lift (C.comparable.place field s.cursor s.unit)) fun placed _ hplaced => ?_
  obtain ⟨placement, hplaces⟩ := hplaced
  refine L.bind (L.note placed.notes) fun _ _ _ => ?_
  obtain ⟨placement, cursor, unit, notes⟩ := placed
  cases hplaces with
  | none => exact L.of_pure (.intro slots hslots)
  | some hplace =>
    have hslots := hslots.concat_bitfield h.name h.type hplace
    obtain ⟨bit, -⟩ := hplace
    dsimp only
    rw [C.raisedBy_eq h.name]
    exact L.of_pure (.intro _ hslots)

theorem relates_placeFlexible (h : L.Knows x y) (hs : C.StructStates s s') :
    L.Relates C.StructStates (placeFlexible S p cap s (x.measured S p))
      (placeFlexible T q cap s' (y.measured T q)) := by
  obtain ⟨slots, hslots⟩ := hs
  simp only [placeFlexible, Member.member_measured, C.flush, h.name]
  refine L.bind (L.note _) fun _ _ _ => L.bind h.extent fun natural _ hnatural => ?_
  subst hnatural
  refine L.bind (L.lift_eq (h.capped cap natural)) fun extent _ hextent => ?_
  subst hextent
  cases x.name with
  | none => exact L.fail _
  | some name => exact L.of_pure (.intro _ (hslots.concat_value h.name h.type C.nested_none _ _ _ _))

theorem relates_placeValue (h : L.Knows x y) (hs : C.StructStates s s') :
    L.Relates C.StructStates (placeValue S p cap s (x.measured S p))
      (placeValue T q cap s' (y.measured T q)) := by
  obtain ⟨slots, hslots⟩ := hs
  simp only [placeValue, Member.member_measured, C.flush]
  refine L.bind (L.note _) fun _ _ _ => L.bind h.extent fun natural _ hnatural => ?_
  subst hnatural
  refine L.bind (L.lift_eq (h.capped cap natural)) fun extent _ hextent => ?_
  subst hextent
  refine L.bind h.nested fun nested nested' hnested => ?_
  exact L.of_pure (.intro _ (hslots.concat_value h.name h.type hnested _ _ _ _))

/-- Nothing may follow an open-ended array, whatever it is. -/
theorem relates_unlessFlexible (hs : C.StructStates s s') (path : String) {u : m StructState}
    {v : n StructState} (h : L.Relates C.StructStates u v) :
    L.Relates C.StructStates
      (S.within path (match s.flexible with
        | some name => S.fail (.ofCause (.afterFlexibleArray name))
        | none => u))
      (T.within path (match s'.flexible with
        | some name => T.fail (.ofCause (.afterFlexibleArray name))
        | none => v)) := by
  obtain ⟨slots, -⟩ := hs
  refine L.within path ?_
  dsimp only
  cases s.flexible with
  | some name => exact L.fail _
  | none => exact h

/-- **The steps over two members of structs** are related. -/
theorem relates_placeInStruct (h : L.Knows x y) (hs : C.StructStates s s') :
    L.Relates C.StructStates (placeInStruct S p cap s (x.measured S p))
      (placeInStruct T q cap s' (y.measured T q)) := by
  have hpath : y.pathName = x.pathName := congrArg (·.getD "") h.name
  have hform := h.form
  generalize htype : x.type = t at hform
  generalize htype' : y.type = u at hform
  cases hform with
  | value left right =>
    subst htype htype'
    rw [placeInStruct_of_standalone left.standalone, placeInStruct_of_standalone right.standalone,
      hpath]
    exact relates_unlessFlexible hs _ (relates_placeValue h hs)
  | aggregate =>
    rw [placeInStruct_of_standalone (congrArg _ htype), placeInStruct_of_standalone
      (congrArg _ htype'), hpath]
    exact relates_unlessFlexible hs _ (relates_placeValue h hs)
  | flexibleArray =>
    simp only [placeInStruct, Member.member_measured, htype, htype', hpath]
    exact relates_unlessFlexible hs _ (relates_placeFlexible h hs)
  | bitfield base width =>
    simp only [placeInStruct, Member.member_measured, htype, htype', hpath]
    exact relates_unlessFlexible hs _ (relates_placeBitfield h hs htype)

theorem relates_overlayBitfield (h : L.Knows x y) (hw : C.UnionStates w w') {base : Primitive}
    {width : Json} (type : x.type = .bitfield base width) :
    L.Relates C.UnionStates (overlayBitfield S p cap w x base width)
      (overlayBitfield T q cap w' y base width) := by
  obtain ⟨slots, hslots⟩ := hw
  refine L.bind (L.lift_eq (h.bitfieldOf_eq type)) fun field _ hfield => ?_
  subst hfield
  refine L.bind (L.lift (C.comparable.place field 0 none)) fun placed _ hplaced => ?_
  obtain ⟨placement, hplaces⟩ := hplaced
  refine L.bind (L.note placed.notes) fun _ _ _ => ?_
  obtain ⟨placement, cursor, unit, notes⟩ := placed
  cases hplaces with
  | none => exact L.of_pure (.intro slots hslots)
  | some hplace =>
    have hslots := hslots.concat_bitfield h.name h.type hplace
    obtain ⟨bit, -⟩ := hplace
    dsimp only
    rw [C.raisedBy_eq h.name]
    exact L.of_pure (.intro _ hslots)

theorem relates_overlayValue (h : L.Knows x y) (hw : C.UnionStates w w') :
    L.Relates C.UnionStates (overlayValue S p cap w (x.measured S p))
      (overlayValue T q cap w' (y.measured T q)) := by
  obtain ⟨slots, hslots⟩ := hw
  simp only [overlayValue, Member.member_measured]
  refine L.bind h.extent fun natural _ hnatural => ?_
  subst hnatural
  refine L.bind (L.lift_eq (h.capped cap natural)) fun extent _ hextent => ?_
  subst hextent
  refine L.bind h.nested fun nested nested' hnested => ?_
  exact L.of_pure (.intro _ (hslots.concat_value h.name h.type hnested _ _ _ _))

/-- **The steps over two members of unions** are related. -/
theorem relates_placeInUnion (h : L.Knows x y) (hw : C.UnionStates w w') :
    L.Relates C.UnionStates (placeInUnion S p cap w (x.measured S p))
      (placeInUnion T q cap w' (y.measured T q)) := by
  have hpath : y.pathName = x.pathName := congrArg (·.getD "") h.name
  have hform := h.form
  generalize htype : x.type = t at hform
  generalize htype' : y.type = u at hform
  cases hform with
  | value left right =>
    subst htype htype'
    rw [placeInUnion_of_standalone left.standalone, placeInUnion_of_standalone right.standalone,
      hpath]
    exact L.within _ (relates_overlayValue h hw)
  | aggregate =>
    rw [placeInUnion_of_standalone (congrArg _ htype), placeInUnion_of_standalone
      (congrArg _ htype'), hpath]
    exact L.within _ (relates_overlayValue h hw)
  | flexibleArray =>
    simp only [placeInUnion, Member.member_measured, htype, htype', hpath]
    exact L.within _ (L.fail _)
  | bitfield base width =>
    simp only [placeInUnion, Member.member_measured, htype, htype', hpath]
    exact L.within _ (relates_overlayBitfield h hw htype)

/-- **The walks over the members** are related when these correspond one by one. -/
theorem relates_sequenceMembers {xs ys : List Member} (h : List.Forall₂ L.Knows xs ys)
    (cap : Option Int) (kind : AggregateKind) :
    L.Relates C.Sequences (sequenceMembers S p cap kind (xs.map (Member.measured S p)))
      (sequenceMembers T q cap kind (ys.map (Member.measured T q))) := by
  cases kind with
  | struct =>
    simp only [sequenceMembers, sequenceStruct, List.foldlM_map]
    refine L.bind (L.foldlM (P := L.Knows) (fun x y s s' hxy hs => relates_placeInStruct hxy hs) h
      (.intro [] rfl)) fun s s' hs => ?_
    obtain ⟨slots, hslots⟩ := hs
    simp only [C.flush]
    exact L.bind (L.note _) fun _ _ _ => L.of_pure (.intro slots hslots)
  | union =>
    simp only [sequenceMembers, sequenceUnion, List.foldlM_map]
    refine L.bind (L.foldlM (P := L.Knows) (fun x y w w' hxy hw => relates_placeInUnion hxy hw) h
      (.intro [] rfl)) fun w w' hw => ?_
    obtain ⟨slots, hslots⟩ := hw
    exact L.of_pure (.intro slots hslots)

/-- **The layouts of two aggregates** that are written alike are related when their members
correspond. -/
theorem relates_compute {a b : Aggregate} (kind : b.kind = a.kind) (name : b.name = a.name)
    (pack : b.pack = a.pack) (attributes : b.attributes = a.attributes)
    (members : List.Forall₂ L.Knows a.members b.members) :
    L.Relates C.Layouts (a.compute S p) (b.compute T q) := by
  obtain ⟨kind, xs, name, pack, attributes, origin⟩ := a
  obtain ⟨kind', ys, name', pack', attributes', origin'⟩ := b
  dsimp only at kind name pack attributes members
  subst kind name pack attributes
  simp only [Aggregate.compute, Aggregate.layoutFrom, measureMembers_eq_map]
  refine L.bind (L.lift_eq rfl) fun cap _ hcap => ?_
  subst hcap
  refine L.bind (relates_sequenceMembers members cap _) fun s s' hs => ?_
  exact L.lift (hs.finish rfl rfl rfl)

/-! ### Types -/

theorem relates_plainLayout {kind : ResultKind} (plain : ∀ k, kind ≠ .aggregate k) {t u : TypeNode}
    (type : C.Types t u) {x : m Extent} {y : n Extent} (h : L.Relates Eq x y) :
    L.Relates C.Layouts (plainLayout kind t x) (plainLayout kind u y) := by
  refine L.bind h fun extent _ hextent => L.of_pure ?_
  subst hextent
  cases kind with
  | aggregate k => exact absurd rfl (plain k)
  | array | scalar =>
    simp only [Comparison.Layouts, LayoutResult.ofExtent, LayoutResult.through, View.name,
      layoutsThrough, C.comparable.describe type, C.comparable.left_flags, C.comparable.right_flags]

namespace Measures

variable {t u : TypeNode}

theorem primitive {k k' : Primitive} (type : C.Types (.primitive k) (.primitive k'))
    (extent : q.primitiveExtent k' = p.primitiveExtent k) :
    L.Measures (.primitive k) (.primitive k') :=
  ⟨L.lift_eq extent, relates_plainLayout (by simp) type (L.lift_eq extent)⟩

/-- Arrays whose extents correspond. -/
theorem array_of_extent {dims dims' : List Json} (type : C.Types (.array t dims) (.array u dims'))
    (h : L.Relates Eq ((TypeNode.array t dims).measure S p).extent
      ((TypeNode.array u dims').measure T q).extent) :
    L.Measures (.array t dims) (.array u dims') :=
  ⟨h, relates_plainLayout (by simp) type h⟩

theorem array {dims : List Json} (type : C.Types (.array t dims) (.array u dims))
    (count : L.Relates Eq (S.lift (arrayCount t dims)) (T.lift (arrayCount u dims)))
    (element : L.Measures t u) : L.Measures (.array t dims) (.array u dims) := by
  refine array_of_extent type ?_
  refine L.bind count fun number _ hnumber => ?_
  subst hnumber
  refine L.bind element.extent fun x _ hx => ?_
  subst hx
  exact L.of_pure rfl

theorem flexibleArray (form : u.memberOnly? = t.memberOnly?) (element : L.Measures t u) :
    L.Measures (.flexibleArray t) (.flexibleArray u) := by
  refine ⟨?_, L.fail _⟩
  refine L.bind (L.lift_eq (checkFlexibleElement_congr form)) fun _ _ _ => ?_
  refine L.bind element.extent fun x _ hx => ?_
  subst hx
  exact L.of_pure rfl

theorem bitfield {base : Primitive} (extent : q.primitiveExtent base = p.primitiveExtent base)
    (width : Json) : L.Measures (.bitfield base width) (.bitfield base width) :=
  ⟨L.lift_eq extent, L.fail _⟩

theorem incomplete (label : Label) : L.Measures (.incomplete label) (.incomplete label) :=
  ⟨L.fail _, L.fail _⟩

theorem unknown (kind : String) : L.Measures (.unknown kind) (.unknown kind) :=
  ⟨L.fail _, L.fail _⟩

/-- The extent of an aggregate is read off its layout. -/
theorem aggregate {a b : Aggregate} (fetched : F a b)
    (compute : L.Relates C.Layouts (a.compute S p) (b.compute T q)) :
    L.Measures (.aggregate a) (.aggregate b) := by
  refine ⟨?_, compute⟩
  exact L.bind (L.fetch fetched compute) fun r r' hr => L.of_pure hr.extent_eq.symm

end Measures

end Coupling

/-! ## Plain layouts -/

/-- Plain layouts are compared by what they return, and by some relation between their failures. -/
def Coupling.plain {p q : Profile} (C : Comparison p q) {E : Failure → Failure → Prop}
    (refl : ∀ f, E f f) (push : ∀ f g name, E f g → E (f.push name) (g.push name)) :
    Coupling Setting.pure Setting.pure C fun _ _ => True where
  Relates R := Except.Rel E R
  of_pure := .ok
  bind := .bind
  fail e := .error (refl e)
  within name h := Failure.within_rel (fun f g => push f g name) h
  note _ := .ok rfl
  fetch _ h := h

/-- Plain layouts that fail with the very same failures. -/
def Coupling.equal {p q : Profile} (C : Comparison p q) :
    Coupling Setting.pure Setting.pure C fun _ _ => True :=
  .plain C Eq.refl fun _ _ name h => congrArg (Failure.push name) h

end RecordLayout
