import RecordLayout.Proofs.Layout.Coupling

/-!
# Layouts without origins

Where an aggregate was written shows in a layout as part of the types of its members, and nowhere
else.  A walk over the members of an aggregate therefore goes as the walk over the members without
their origins, and what it comes to is the same up to origins.  The second walk may run in another
setting: all that this setting has to show is that a look-up does no more than the computation that
it replaces.

The types that are looked up may be restricted to a class, which must then be closed under going
from a type to its parts (`Hereditary`).

## Main definitions

* `LayoutResult.bare` is a layout without the origins of the types in it;
* `Comparison.bare` compares layouts of bare types with layouts of types.

## Main results

* `Coupling.measures_bare`: the layout of a type corresponds to that of the bare type;
* `layoutOf_bare`: the plain layout itself does not look at origins.
-/

namespace RecordLayout

/-! ## Views without origins -/

/-- Types are seen without their origins. -/
def View.bare : View where
  type := TypeNode.bare

/-- A layout without the origins of the types in it. -/
abbrev LayoutResult.bare : LayoutResult → LayoutResult := through .bare

/-- The place of a member without the origins of the types in it. -/
abbrev MemberLayout.bare : MemberLayout → MemberLayout := through .bare

@[simp] theorem LayoutResult.bare_extent (r : LayoutResult) : r.bare.extent = r.extent :=
  r.through_extent .bare

theorem View.comparable_bare (p : Profile) : View.Comparable p p .plain .bare where
  left_local _ _ _ := rfl
  right_local _ _ _ := rfl
  left_flags := rfl
  right_flags := rfl
  describe {t u} h := by
    rw [← show u.bare = t from h, TypeNode.describe_bare]
    rfl
  packing := rfl
  place := Bitfield.rel_place .plain .bare (fun _ _ => rfl) p

/-- Layouts of bare types on the left, and layouts seen without origins on the right. -/
def Comparison.bare (p : Profile) : Comparison p p where
  left := .plain
  right := .bare
  comparable := View.comparable_bare p

theorem Comparison.layouts_bare {p : Profile} {r r' : LayoutResult} :
    (Comparison.bare p).Layouts r r' ↔ r'.bare = r := by
  rw [Layouts, show (Comparison.bare p).left = .plain from rfl, LayoutResult.through_plain]
  rfl

/-- Computations that correspond are one computation up to origins. -/
theorem Comparison.rel_layouts_bare {p : Profile} {x y : Except Failure LayoutResult} :
    x.Rel Eq (Comparison.bare p).Layouts y ↔ y.map LayoutResult.bare = x := by
  rw [show (Comparison.bare p).Layouts = fun r r' => r'.bare = r.through .plain from rfl,
    Except.rel_eq_iff, map_through_plain]

/-! ## Walks without origins -/

section

variable {m n : Type → Type} [Monad m] [Monad n] {S : Setting m} {T : Setting n} {p : Profile}
  {F : Aggregate → Aggregate → Prop} {L : Coupling S T (.bare p) F} {D : TypeNode → Prop}

namespace Coupling

/-- A member without origins is written as the member is. -/
theorem Measures.knows_bare (hF : ∀ a, D (.aggregate a) → F a.bare a) {x : Member} (h : D x.type)
    (hx : L.Measures x.type.bare x.type) : L.Knows x.bare x := by
  obtain ⟨type, name, attributes⟩ := x
  refine ⟨rfl, rfl, rfl, type.sameForm_bare, fun _ _ => rfl, fun _ _ _ => rfl, ?_, hx⟩
  rintro _ b hbare hb
  dsimp only at hb h
  subst hb
  exact TypeNode.aggregate.inj hbare ▸ hF b h

/-- The aggregate without origins is written as the aggregate is. -/
theorem relates_compute_bare {a : Aggregate} (h : ∀ x ∈ a.members, L.Knows x.bare x) :
    L.Relates (Comparison.bare p).Layouts (a.bare.compute S p) (a.compute T p) := by
  obtain ⟨kind, members, name, pack, attributes, origin⟩ := a
  refine relates_compute rfl rfl rfl rfl ?_
  rw [Aggregate.bare, bareMembers_eq_map, List.forall₂_map_left_iff, List.forall₂_same]
  exact h

/-- **Layouts do not look at origins**, in any two settings that do not when they look layouts
up. -/
theorem measures_bare (hD : Hereditary D) (hF : ∀ a, D (.aggregate a) → F a.bare a)
    (node : TypeNode) (hnode : D node) : L.Measures node.bare node := by
  induction node using TypeNode.induction with
  | primitive q => exact .primitive rfl rfl
  | array e dims ih =>
    have hcount : arrayCount e dims = arrayCount e.bare dims := by
      simp only [arrayCount, TypeNode.spelled_bare, TypeNode.memberOnly?_bare]
    exact .array rfl (L.lift_eq hcount) (ih (hD.array hnode))
  | flexibleArray e ih =>
    exact .flexibleArray e.memberOnly?_bare.symm (ih (hD.flexibleArray hnode))
  | bitfield base width => exact .bitfield rfl width
  | incomplete label => exact .incomplete label
  | unknown kind => exact .unknown kind
  | aggregate a ih =>
    refine .aggregate (hF a hnode) (relates_compute_bare fun x hx => ?_)
    have hmember := hD.aggregate hnode x hx
    exact (ih x hx hmember).knows_bare hF hmember

end Coupling

end

theorem TypeNode.rootName_bare (node : TypeNode) : node.bare.rootName = node.rootName := by
  cases node with
  | aggregate a => simp only [TypeNode.bare, TypeNode.rootName, Aggregate.bare_name]
  | primitive | array | flexibleArray | bitfield | incomplete | unknown => rfl

/-- **Layouts do not look at origins.** -/
theorem layoutOf_bare (p : Profile) (node : TypeNode) :
    layoutOf p node.bare = (layoutOf p node).map LayoutResult.bare := by
  have hmeasures : (Coupling.equal (.bare p)).Measures node.bare node :=
    Coupling.measures_bare hereditary_true (fun _ _ => trivial) node trivial
  have hlayout := (Coupling.equal (.bare p)).within node.rootName hmeasures.compute
  rw [layoutOf, TypeNode.rootName_bare]
  exact (Comparison.rel_layouts_bare.mp hlayout).symm

end RecordLayout
