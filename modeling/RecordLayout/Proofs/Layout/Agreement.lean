import RecordLayout.Proofs.Layout.Coupling

/-!
# Types that are measured alike

The profiles of two walks over one type may differ in their names, in the sizes of their primitives
or in the direction in which storage is filled.  Where the scalars of the type have the same extents
under both, and its members come out the same, the two walks go side by side.

## Main definitions

* `TypeNode.IsMeasuredAlike` has the types for which two profiles make no difference;
* `Comparison.same` compares layouts under profiles that place bitfields in the same way.

## Main results

* `Coupling.measures_self`: the layouts of a type that is measured alike correspond;
* `TypeNode.isMeasuredAlike`: profiles that give the same extents measure every type alike.
-/

namespace RecordLayout

/-- Types that are measured alike under `p` and under `q`: their scalars have the same extents, and
their members come out the same. -/
inductive TypeNode.IsMeasuredAlike (p q : Profile) : TypeNode → Prop
  | primitive {t : Primitive} (extent : q.primitiveExtent t = p.primitiveExtent t) :
      IsMeasuredAlike p q (.primitive t)
  | aggregate {a : Aggregate}
      (capped : ∀ x ∈ a.members, ∀ cap natural,
        q.memberExtent x cap natural = p.memberExtent x cap natural)
      (types : ∀ x ∈ a.members, IsMeasuredAlike p q x.type) : IsMeasuredAlike p q (.aggregate a)
  | array {e : TypeNode} {dims : List Json} (element : IsMeasuredAlike p q e) :
      IsMeasuredAlike p q (.array e dims)
  | flexibleArray {e : TypeNode} (element : IsMeasuredAlike p q e) :
      IsMeasuredAlike p q (.flexibleArray e)
  | bitfield {base : Primitive} {width : Json}
      (extent : q.primitiveExtent base = p.primitiveExtent base) :
      IsMeasuredAlike p q (.bitfield base width)
  | incomplete (label : Label) : IsMeasuredAlike p q (.incomplete label)
  | unknown (kind : String) : IsMeasuredAlike p q (.unknown kind)

/-- **Profiles that give the same extents** measure all types alike. -/
theorem TypeNode.isMeasuredAlike {p q : Profile}
    (extent : ∀ t, q.primitiveExtent t = p.primitiveExtent t)
    (capped : ∀ x cap natural, q.memberExtent x cap natural = p.memberExtent x cap natural)
    (node : TypeNode) : node.IsMeasuredAlike p q := by
  induction node using TypeNode.induction with
  | primitive t => exact .primitive (extent t)
  | aggregate a ih => exact .aggregate (fun x _ => capped x) ih
  | array e dims ih => exact .array ih
  | flexibleArray e ih => exact .flexibleArray ih
  | bitfield base width => exact .bitfield (extent base)
  | incomplete label => exact .incomplete label
  | unknown kind => exact .unknown kind

theorem TypeNode.isMeasuredAlike_self (p : Profile) (node : TypeNode) :
    node.IsMeasuredAlike p p :=
  node.isMeasuredAlike (fun _ => rfl) fun _ _ _ => rfl

/-! ## The same layouts -/

theorem View.comparable_plain {p q : Profile} (packing : q.packing = p.packing)
    (place : ∀ f cursor unit, Bitfield.place q f cursor unit = Bitfield.place p f cursor unit) :
    View.Comparable p q .plain .plain where
  left_local _ _ _ := rfl
  right_local _ _ _ := rfl
  left_flags := rfl
  right_flags := rfl
  describe h := congrArg (fun t => some (TypeNode.describe t)) h
  packing := packing
  place f cursor unit := by
    rw [place]
    exact Bitfield.rel_place .plain .plain (fun _ _ => rfl) p f cursor unit

/-- Layouts as they are, under two profiles that place bitfields in the same way. -/
def Comparison.same {p q : Profile} (packing : q.packing = p.packing)
    (place : ∀ f cursor unit, Bitfield.place q f cursor unit = Bitfield.place p f cursor unit) :
    Comparison p q where
  left := .plain
  right := .plain
  comparable := View.comparable_plain packing place

/-- Layouts as they are, under one profile. -/
def Comparison.refl (p : Profile) : Comparison p p := .same rfl fun _ _ _ => rfl

section

variable {p q : Profile} {packing : q.packing = p.packing}
  {place : ∀ f cursor unit, Bitfield.place q f cursor unit = Bitfield.place p f cursor unit}

theorem Comparison.layouts_same {r r' : LayoutResult} :
    (Comparison.same packing place).Layouts r r' ↔ r' = r := by
  rw [show (Comparison.same packing place).Layouts r r' = (r'.through .plain = r.through .plain)
    from rfl, LayoutResult.through_plain, LayoutResult.through_plain]

theorem Comparison.rel_layouts_same {x y : Except Failure LayoutResult} :
    x.Rel Eq (Comparison.same packing place).Layouts y ↔ y = x := by
  rw [show (Comparison.same packing place).Layouts = fun r r' => r'.through .plain = r.through .plain
    from rfl, Except.rel_eq_iff, map_through_plain, map_through_plain]

end

section

variable {m n : Type → Type} [Monad m] [Monad n] {S : Setting m} {T : Setting n} {p q : Profile}
  {C : Comparison p q} {F : Aggregate → Aggregate → Prop} {L : Coupling S T C F}
  {D : TypeNode → Prop}

namespace Coupling

theorem relates_compute_self {a : Aggregate} (h : ∀ x ∈ a.members, L.Knows x x) :
    L.Relates C.Layouts (a.compute S p) (a.compute T q) :=
  relates_compute rfl rfl rfl rfl (List.forall₂_same.mpr h)

theorem Measures.knows_self (hC : ∀ t, C.Types t t) (hF : ∀ a, D (.aggregate a) → F a a)
    {x : Member} (hx : D x.type) (halike : x.type.IsMeasuredAlike p q)
    (capped : ∀ cap natural, q.memberExtent x cap natural = p.memberExtent x cap natural)
    (h : L.Measures x.type x.type) : L.Knows x x := by
  refine ⟨rfl, rfl, hC _, .refl _, capped, fun base width htype => ?_, ?_, h⟩
  · rw [htype] at halike
    cases halike with
    | bitfield extent => exact extent
  · intro a b ha hb
    obtain rfl := TypeNode.aggregate.inj (ha.symm.trans hb)
    exact hF a (ha ▸ hx)

/-- **The layouts of one type correspond** when it is measured alike, in any two settings in which
they correspond whenever an aggregate of a class is looked up. -/
theorem measures_self (hC : ∀ t, C.Types t t) (hD : Hereditary D)
    (hF : ∀ a, D (.aggregate a) → F a a) {node : TypeNode} (h : node.IsMeasuredAlike p q)
    (hnode : D node) : L.Measures node node := by
  induction h with
  | primitive extent => exact .primitive (hC _) extent
  | array _ ih => exact .array (hC _) (L.lift_eq rfl) (ih (hD.array hnode))
  | flexibleArray _ ih => exact .flexibleArray rfl (ih (hD.flexibleArray hnode))
  | bitfield extent => exact .bitfield extent _
  | incomplete label => exact .incomplete label
  | unknown kind => exact .unknown kind
  | aggregate capped types ih =>
    refine .aggregate (hF _ hnode) (relates_compute_self fun x hx => ?_)
    have hmember := hD.aggregate hnode x hx
    exact (ih x hx hmember).knows_self hC hF hmember (types x hx) (capped x hx)

end Coupling

end

end RecordLayout
