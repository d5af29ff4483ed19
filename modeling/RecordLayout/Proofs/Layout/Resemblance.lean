import RecordLayout.Proofs.Layout.Agreement
import RecordLayout.Proofs.Layout.Bare

/-!
# Layouts that resemble one another

Two types may be laid out alike although they are written differently.  The layouts then have the
same figures: everything but the types of the members, which a layout only shows.  If they fail,
they fail with the same kind of failure and at the same path, but a message may spell a type.

## Main definitions

* `LayoutResult.figures` is a layout without the types of its members;
* `Failure.Resembles` compares failures by kind and path;
* `Matches` compares two computations;
* `Coupling.resembling` compares plain layouts in this way.

## Main results

* `LayoutResult.figures_bare`: the figures do not show origins;
* `Matches.of_map_bare`: computations that match do so whatever the origins are.
-/

namespace RecordLayout

/-- The types of members are not seen, and neither is the short name of a type that has no
members. -/
def View.figures : View where
  type _ := default
  shortName _ := none

/-- A layout without the types of its members, and without the short name of a type that has no
members. -/
abbrev LayoutResult.figures : LayoutResult → LayoutResult := through .figures

/-- The place of a member without its type. -/
abbrev MemberLayout.figures : MemberLayout → MemberLayout := through .figures

/-- Two layouts have the same figures. -/
def SameFigures (r r' : LayoutResult) : Prop := r'.figures = r.figures

/-- The figures of a layout do not show origins. -/
theorem LayoutResult.figures_bare (r : LayoutResult) : r.bare.figures = r.figures :=
  r.through_through .bare .figures

/-- Two failures are of one kind and have one path.  Only a failed layout may be worded
differently. -/
inductive Failure.Resembles : Failure → Failure → Prop
  | same (f : Failure) : Resembles f f
  | layout {e e' : LayoutError} (kind : e'.kind = e.kind) (path : e'.path = e.path) :
      Resembles (.layout e) (.layout e')

theorem Failure.Resembles.push {f g : Failure} (h : f.Resembles g) (name : String) :
    (f.push name).Resembles (g.push name) := by
  cases h with
  | same => exact .same _
  | @layout e e' kind path =>
    refine .layout ?_ ?_
    · simpa only [LayoutError.kind, LayoutError.cause_push] using kind
    · by_cases hname : name = ""
      · simpa only [hname, LayoutError.push_empty] using path
      · rw [LayoutError.path_push hname, LayoutError.path_push hname, path]

/-- Two computations return related results, or fail with failures that resemble one another. -/
abbrev Matches {α β : Type} (R : α → β → Prop) : Except Failure α → Except Failure β → Prop :=
  Except.Rel Failure.Resembles R

/-- Layouts that match do so whatever the origins are. -/
theorem Matches.of_map_bare {x x' y y' : Except Failure LayoutResult}
    (h : Matches SameFigures x y) (hx : x'.map LayoutResult.bare = x.map LayoutResult.bare)
    (hy : y'.map LayoutResult.bare = y.map LayoutResult.bare) : Matches SameFigures x' y' := by
  cases h with
  | @ok r s related =>
    obtain ⟨r', rfl, hr⟩ := Except.map_eq_ok.mp hx
    obtain ⟨s', rfl, hs⟩ := Except.map_eq_ok.mp hy
    have hfigures : s'.figures = r'.figures := by
      rw [← s'.figures_bare, hs, s.figures_bare, ← r'.figures_bare, hr, r.figures_bare]
      exact related
    exact .ok hfigures
  | error resembles =>
    obtain rfl := Except.map_eq_error.mp hx
    obtain rfl := Except.map_eq_error.mp hy
    exact .error resembles

/-! ## Plain layouts -/

theorem View.comparable_figures (p : Profile) : View.Comparable p p .figures .figures where
  left_local _ _ _ := rfl
  right_local _ _ _ := rfl
  left_flags := rfl
  right_flags := rfl
  describe _ := rfl
  packing := rfl
  place := Bitfield.rel_place .figures .figures (fun _ _ => rfl) p

/-- Layouts under one profile, of which the figures are seen. -/
def Comparison.figures (p : Profile) : Comparison p p where
  left := .figures
  right := .figures
  comparable := View.comparable_figures p

/-- Plain layouts with the same figures, and failures that resemble one another. -/
def Coupling.resembling (p : Profile) :
    Coupling Setting.pure Setting.pure (Comparison.figures p) fun _ _ => True :=
  .plain (E := Failure.Resembles) (.figures p) .same fun _ _ name h => h.push name

/-- A type resembles itself. -/
theorem Coupling.resembling_self (p : Profile) (t : TypeNode) :
    (Coupling.resembling p).Measures t t :=
  measures_self (C := .figures p) (fun _ => rfl) hereditary_true (fun _ _ => trivial)
    (t.isMeasuredAlike_self p) trivial

/-- Two members that differ in their types only, which resemble one another. -/
theorem Coupling.Knows.resembling {p : Profile} {x y : Member} (name : y.name = x.name)
    (attributes : y.attributes = x.attributes) (form : x.type.SameForm y.type)
    (h : (Coupling.resembling p).Measures x.type y.type) : (Coupling.resembling p).Knows x y := by
  obtain ⟨type, _, _⟩ := x
  obtain ⟨type', _, _⟩ := y
  cases name
  cases attributes
  exact ⟨rfl, rfl, rfl, form, fun _ _ => rfl, fun _ _ _ => rfl, fun _ _ _ _ => trivial, h⟩

end RecordLayout
