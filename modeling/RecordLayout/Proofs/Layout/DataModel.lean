import RecordLayout.Proofs.Layout.Agreement

/-!
# Types that bring their own sizes

A layout asks a profile for the size of a primitive that has none, and names the profile when that
fails or when a packed member requests an alignment.  Where every primitive of a type has a size and
no member is packed, nothing of this happens: the name of the profile, the width of its pointers and
its table of sizes make no difference.

## Main definitions

* `Profile.withDataModel` is a profile with the name and the sizes of another one;
* `TypeNode.IsSelfContained` has the types that bring their own sizes.

## Main results

* `TypeNode.IsSelfContained.isMeasuredAlike`: such a type is measured alike under all data models;
* `layoutOf_withDataModel`: its layout does not depend on the data model of the profile.
-/

namespace RecordLayout

/-- The profile with the name of `q` and its sizes of pointers and primitives.  The rules that give
alignments and place bitfields stay. -/
def Profile.withDataModel (p q : Profile) : Profile :=
  { p with name := q.name, pointerWidth := q.pointerWidth, primitiveSizes := q.primitiveSizes }

/-- Types in which every primitive has a size and no member is packed. -/
inductive TypeNode.IsSelfContained : TypeNode → Prop
  | primitive {q : Primitive} (size : q.size.isSome = true) : IsSelfContained (.primitive q)
  | aggregate {a : Aggregate} (unpacked : ∀ x ∈ a.members, x.attributes.packed = false)
      (types : ∀ x ∈ a.members, IsSelfContained x.type) : IsSelfContained (.aggregate a)
  | array {e : TypeNode} {dims : List Json} (element : IsSelfContained e) :
      IsSelfContained (.array e dims)
  | flexibleArray {e : TypeNode} (element : IsSelfContained e) : IsSelfContained (.flexibleArray e)
  | bitfield {base : Primitive} {width : Json} (size : base.size.isSome = true) :
      IsSelfContained (.bitfield base width)
  | incomplete (label : Label) : IsSelfContained (.incomplete label)
  | unknown (kind : String) : IsSelfContained (.unknown kind)

section Profiles

variable (p q : Profile)

/-- A primitive that has a size does not need the one of the profile. -/
theorem Profile.primitiveExtent_withDataModel {t : Primitive} (h : t.size.isSome = true) :
    (p.withDataModel q).primitiveExtent t = p.primitiveExtent t := by
  obtain ⟨size, hsize⟩ := Option.isSome_iff_exists.mp h
  unfold primitiveExtent
  rw [hsize]
  rfl

/-- Of members only packed ones have the profile named. -/
theorem Profile.memberExtent_withDataModel {x : Member} (h : x.attributes.packed = false)
    (cap : Option Int) (natural : Extent) :
    (p.withDataModel q).memberExtent x cap natural = p.memberExtent x cap natural := by
  unfold memberExtent
  rw [h]
  rfl

/-- **A type that brings its own sizes** is measured alike under all data models. -/
theorem TypeNode.IsSelfContained.isMeasuredAlike {node : TypeNode} (h : node.IsSelfContained) :
    node.IsMeasuredAlike p (p.withDataModel q) := by
  induction h with
  | primitive size => exact .primitive (p.primitiveExtent_withDataModel q size)
  | aggregate unpacked types ih =>
    refine .aggregate (fun x hx cap natural => ?_) ih
    exact p.memberExtent_withDataModel q (unpacked x hx) cap natural
  | array element ih => exact .array ih
  | flexibleArray element ih => exact .flexibleArray ih
  | bitfield size => exact .bitfield (p.primitiveExtent_withDataModel q size)
  | incomplete label => exact .incomplete label
  | unknown kind => exact .unknown kind

end Profiles

/-- Layouts as they are, under two data models. -/
def Comparison.withDataModel (p q : Profile) : Comparison p (p.withDataModel q) :=
  .same rfl fun _ _ _ => rfl

/-- **The layout of a type that brings its own sizes** does not depend on the data model of the
profile. -/
theorem layoutOf_withDataModel (p q : Profile) {node : TypeNode} (h : node.IsSelfContained) :
    layoutOf (p.withDataModel q) node = layoutOf p node := by
  have hmeasures : (Coupling.equal (.withDataModel p q)).Measures node node :=
    Coupling.measures_self (C := .withDataModel p q) (fun _ => rfl) hereditary_true (fun _ _ => trivial)
      (h.isMeasuredAlike p q) trivial
  have hlayout := (Coupling.equal (.withDataModel p q)).within node.rootName hmeasures.compute
  exact Comparison.rel_layouts_same.mp hlayout

end RecordLayout
