import RecordLayout.Layout.Sequence

/-!
# Views of layouts

A layout shows more than the places of members: the types of the members with their origins, the end
from which bits are counted, whether a size was written as a flag.  A view is a way to look at a
layout that changes or drops some of this and leaves the places alone.  Two layouts are compared by
what is seen of each through a view of its own.

## Main definitions

* `View` says what is seen of each part of a layout;
* `LayoutResult.through` is what is seen of a layout;
* `Slot.through` and `Extent.through` are what is seen of storage and of an extent;
* `View.andThen` is one view through another.

## Main results

* `promotedFrom_through`, `valueSlot_through`, `Aggregate.finish_through`: what is made of parts that
  are seen through a view is seen through it;
* `LayoutResult.through_plain`, `LayoutResult.through_through`: the view that changes nothing, and
  two views one after the other;
* `LayoutResult.paddingBytes_through`: padding is the same through every view.
-/

namespace RecordLayout

/-- A way to look at a layout. -/
structure View where
  /-- What is seen of the type of a member. -/
  type : TypeNode → TypeNode := id
  /-- What is seen of bits at an offset, in storage of a size. -/
  bits : Int → Int → BitRange → BitRange := fun _ _ b => b
  /-- What is seen of the short name of a type that has no members. -/
  shortName : Option String → Option String := id
  /-- Whether it is seen that a size was written as a flag. -/
  flags : Bool := true

/-- Bits are seen where they are in their storage, wherever that is. -/
def View.IsLocal (v : View) : Prop :=
  ∀ byteOffset byteOffset' size, v.bits byteOffset size = v.bits byteOffset' size

/-- What is seen of the name of a layout.  An aggregate has a name of its own. -/
def View.name (v : View) (name : Option String) : ResultKind → Option String
  | .aggregate _ => name
  | .array | .scalar => v.shortName name

mutual
/-- What is seen of a layout. -/
def LayoutResult.through (v : View) : LayoutResult → LayoutResult
  | ⟨kind, name, size, alignment, members, tailPadding, sizeIsFlag⟩ =>
    ⟨kind, v.name name kind, size, alignment, layoutsThrough v members, tailPadding,
      v.flags && sizeIsFlag⟩

/-- What is seen of the places of members. -/
def layoutsThrough (v : View) : List MemberLayout → List MemberLayout
  | [] => []
  | m :: ms => m.through v :: layoutsThrough v ms

/-- What is seen of the place of a member. -/
def MemberLayout.through (v : View) : MemberLayout → MemberLayout
  | ⟨key, name, type, byteOffset, size, alignment, bits, paddingBefore, promoted, layout,
      sizeIsFlag⟩ =>
    ⟨key, name, v.type type, byteOffset, size, alignment, bits.map (v.bits byteOffset size),
      paddingBefore, promoted, nestedThrough v layout, v.flags && sizeIsFlag⟩

/-- What is seen of a nested layout, if there is one. -/
def nestedThrough (v : View) : Option LayoutResult → Option LayoutResult
  | none => none
  | some r => some (r.through v)
end

/-- What is seen of an extent. -/
def Extent.through (v : View) (x : Extent) : Extent :=
  { x with sizeIsFlag := v.flags && x.sizeIsFlag }

/-- What is seen of a slot. -/
def Slot.through (v : View) (t : Slot) : Slot :=
  ⟨t.placed.through v, t.promoted.map (MemberLayout.through v), t.listed⟩

/-- What is seen of placed members. -/
def Sequenced.through (v : View) (s : Sequenced) : Sequenced :=
  { s with slots := s.slots.map (Slot.through v), endIsFlag := v.flags && s.endIsFlag }

section

variable (v : View)

theorem layoutsThrough_eq_map (ms : List MemberLayout) :
    layoutsThrough v ms = ms.map (MemberLayout.through v) := by
  induction ms with
  | nil => rfl
  | cons m ms ih => rw [layoutsThrough, ih, List.map_cons]

theorem Extent.through_of_flags {v : View} (h : v.flags = true) (x : Extent) : x.through v = x := by
  rw [through, h, Bool.true_and]

namespace MemberLayout

variable (m : MemberLayout)

@[simp] theorem through_key : (m.through v).key = m.key := by cases m; rfl

@[simp] theorem through_name : (m.through v).name = m.name := by cases m; rfl

@[simp] theorem through_byteOffset : (m.through v).byteOffset = m.byteOffset := by cases m; rfl

@[simp] theorem through_size : (m.through v).size = m.size := by cases m; rfl

@[simp] theorem through_alignment : (m.through v).alignment = m.alignment := by cases m; rfl

@[simp] theorem through_paddingBefore : (m.through v).paddingBefore = m.paddingBefore := by
  cases m
  rfl

@[simp] theorem through_promoted : (m.through v).promoted = m.promoted := by cases m; rfl

variable {v} in
/-- A view that is local can be taken before or after promotion. -/
theorem through_translated (h : v.IsLocal) (base : Int) :
    (m.translated base).through v = (m.through v).translated base := by
  obtain ⟨key, name, type, byteOffset, size⟩ := m
  simp only [translated, through, h (byteOffset + base) byteOffset size]

end MemberLayout

namespace LayoutResult

variable (r : LayoutResult)

@[simp] theorem through_size : (r.through v).size = r.size := by cases r; rfl

@[simp] theorem through_alignment : (r.through v).alignment = r.alignment := by cases r; rfl

@[simp] theorem through_tailPadding : (r.through v).tailPadding = r.tailPadding := by cases r; rfl

@[simp] theorem through_members :
    (r.through v).members = r.members.map (MemberLayout.through v) := by
  cases r
  exact layoutsThrough_eq_map v _

theorem through_extent : (r.through v).extent = r.extent.through v := by cases r; rfl

@[simp] theorem through_direct : (r.through v).direct = r.direct.map (MemberLayout.through v) := by
  rw [direct, through_members, List.filter_map, direct]
  congr 1
  exact List.filter_congr fun m _ => by simp

/-- Padding is seen through every view. -/
@[simp] theorem paddingBytes_through : (r.through v).paddingBytes = r.paddingBytes := by
  have hbefore : (r.through v).direct.map (·.paddingBefore) = r.direct.map (·.paddingBefore) := by
    rw [through_direct, List.map_map]
    exact List.map_congr_left fun m _ => m.through_paddingBefore v
  rw [paddingBytes, hbefore, through_tailPadding, paddingBytes]

end LayoutResult

variable {v} in
/-- **Promotion** does not look at what a view changes. -/
theorem promotedFrom_through (h : v.IsLocal) (offset : Int) (r : LayoutResult) :
    promotedFrom offset (r.through v) = (promotedFrom offset r).map (MemberLayout.through v) := by
  have hnamed : (fun m : MemberLayout => m.name.isSome) ∘ MemberLayout.through v =
      fun m => m.name.isSome := by
    funext m
    exact congrArg Option.isSome (m.through_name v)
  rw [promotedFrom, LayoutResult.through_members, List.filter_map, hnamed, promotedFrom,
    List.map_map, List.map_map]
  exact List.map_congr_left fun m _ => (m.through_translated h offset).symm

@[simp] theorem Slot.members_through (t : Slot) :
    (t.through v).members = t.members.map (MemberLayout.through v) := by
  unfold members through
  split <;> rfl

variable {v}

/-- **The slot of a member whose type is seen through a view**, with what is seen of the layout that
is nested in it. -/
theorem valueSlot_through (h : v.IsLocal) {x y : Member} (name : y.name = x.name)
    (type : y.type = v.type x.type) (index : Nat) (offset padding : Int) (extent : Extent)
    (nested : Option LayoutResult) :
    valueSlot y index offset padding (extent.through v) (nested.map (LayoutResult.through v)) =
      (valueSlot x index offset padding extent nested).through v := by
  obtain ⟨type, name, attributes⟩ := x
  obtain ⟨type', name', attributes'⟩ := y
  dsimp only at name type
  subst name type
  cases nested with
  | none => cases name' <;> rfl
  | some r =>
    cases name' with
    | none =>
      simp only [valueSlot, Slot.through, Option.map_some, promotedFrom_through h]
      rfl
    | some name => rfl

/-- **Finishing an aggregate** does not look at what a view changes. -/
theorem Aggregate.finish_through {a b : Aggregate} (kind : b.kind = a.kind) (name : b.name = a.name)
    (attributes : b.attributes = a.attributes) (s : Sequenced) :
    b.finish (s.through v) = (a.finish s).map (LayoutResult.through v) := by
  have hmembers : (s.through v).members = layoutsThrough v s.members := by
    simp only [layoutsThrough_eq_map, Sequenced.members, Sequenced.through, List.flatMap_map,
      Slot.members_through, List.map_flatMap]
  have halignment : b.alignmentFrom (s.through v).alignment = a.alignmentFrom s.alignment := by
    simp only [alignmentFrom, kind, name, attributes]
    rfl
  unfold finish
  rw [halignment, kind, name]
  cases a.alignmentFrom s.alignment with
  | error f => rfl
  | ok alignment =>
    simp only [Except.map, hmembers, LayoutResult.through, View.name]
    simp only [Sequenced.through, Bool.and_assoc]

end

/-! ## Views of views -/

/-- The first view, looked at through the second. -/
def View.andThen (v w : View) : View where
  type t := w.type (v.type t)
  bits byteOffset size b := w.bits byteOffset size (v.bits byteOffset size b)
  shortName name := w.shortName (v.shortName name)
  flags := w.flags && v.flags

mutual
/-- **Two views** are one view through the other. -/
theorem LayoutResult.through_through (v w : View) :
    (r : LayoutResult) → (r.through v).through w = r.through (v.andThen w)
  | ⟨kind, _, _, _, members, _, _⟩ => by
    cases kind <;>
      simp only [LayoutResult.through, layoutsThrough_layoutsThrough v w members, View.name,
        View.andThen, Bool.and_assoc]

theorem layoutsThrough_layoutsThrough (v w : View) : (ms : List MemberLayout) →
    layoutsThrough w (layoutsThrough v ms) = layoutsThrough (v.andThen w) ms
  | [] => rfl
  | m :: ms => by
    simp only [layoutsThrough, m.through_through v w, layoutsThrough_layoutsThrough v w ms]

theorem MemberLayout.through_through (v w : View) :
    (m : MemberLayout) → (m.through v).through w = m.through (v.andThen w)
  | ⟨_, _, _, _, _, _, bits, _, _, layout, _⟩ => by
    simp only [MemberLayout.through, nestedThrough_nestedThrough v w layout, View.andThen,
      Bool.and_assoc]
    cases bits <;> rfl

theorem nestedThrough_nestedThrough (v w : View) : (nested : Option LayoutResult) →
    nestedThrough w (nestedThrough v nested) = nestedThrough (v.andThen w) nested
  | none => rfl
  | some r => by simp only [nestedThrough, r.through_through v w]
end

/-- The view that changes nothing. -/
def View.plain : View := {}

mutual
@[simp] theorem LayoutResult.through_plain : (r : LayoutResult) → r.through .plain = r
  | ⟨kind, _, _, _, members, _, _⟩ => by
    cases kind <;> simp only [LayoutResult.through, layoutsThrough_plain members] <;> rfl

theorem layoutsThrough_plain : (ms : List MemberLayout) → layoutsThrough .plain ms = ms
  | [] => rfl
  | m :: ms => by rw [layoutsThrough, m.through_plain, layoutsThrough_plain ms]

@[simp] theorem MemberLayout.through_plain : (m : MemberLayout) → m.through .plain = m
  | ⟨_, _, _, _, _, _, bits, _, _, layout, _⟩ => by
    simp only [MemberLayout.through, nestedThrough_plain layout]
    cases bits <;> rfl

theorem nestedThrough_plain : (nested : Option LayoutResult) → nestedThrough .plain nested = nested
  | none => rfl
  | some r => by rw [nestedThrough, r.through_plain]
end

theorem map_through_plain (x : Except Failure LayoutResult) :
    x.map (LayoutResult.through .plain) = x := by
  cases x with
  | error f => rfl
  | ok r => exact congrArg Except.ok r.through_plain

end RecordLayout
