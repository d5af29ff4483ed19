import RecordLayout.Layout.Extent
import RecordLayout.Proofs.Outcome

/-!
# The extent of a member

Two separate things come out of the attributes of a member: whether the alignment that it requests
is acceptable, which depends neither on its type nor on the pack around it, and the alignment that
it gets.  The size is always that of the type.

## Main definitions

* `Profile.checkRequested` is the check of the requested alignment;
* `Profile.raisedAlignment` is the alignment of a member.

## Main results

* `memberExtent_eq`: the extent of a member in these terms.
-/

namespace RecordLayout

namespace Profile

/-- Whether the alignment that a member requests is acceptable. -/
def checkRequested (p : Profile) (x : Member) : Except Failure Unit :=
  match x.attributes.requested? with
  | none => .ok ()
  | some requested => do
    checkAligned requested ("member " ++ nameOrAnonymous x.name)
    if x.attributes.packed && p.alignedWithPackedIsError then
      throw (.ofCause (.alignedOnPacked requested p.name))

/-- The alignment of a member whose type is aligned to `natural`: the requested alignment raises it,
and the cap limits it, in the order that the profile prescribes. -/
def raisedAlignment (p : Profile) (x : Member) (around : Option Int) (natural : Int) : Int :=
  match x.attributes.requested? with
  | none => capAlignment natural (x.cap around)
  | some requested =>
    if p.alignedOverridesPack then max (capAlignment natural (x.cap around)) requested
    else capAlignment (max natural requested) (x.cap around)

/-- **The extent of a member** keeps the size of its type. -/
theorem memberExtent_eq (p : Profile) (x : Member) (around : Option Int) (natural : Extent) :
    p.memberExtent x around natural = (p.checkRequested x).map fun _ =>
      { natural with alignment := p.raisedAlignment x around natural.alignment } := by
  unfold memberExtent checkRequested raisedAlignment
  cases hr : x.attributes.requested? with
  | none => rfl
  | some requested =>
    cases hc : checkAligned requested ("member " ++ nameOrAnonymous x.name) with
    | error f => simp [hc, bind, Except.bind, Except.map]
    | ok u =>
      by_cases hp : x.attributes.packed = true ∧ p.alignedWithPackedIsError = true
      · simp [hc, hp, bind, Except.bind, Except.map, throw, throwThe, MonadExceptOf.throw]
      · by_cases ho : p.alignedOverridesPack = true <;>
          simp [hc, hp, ho, bind, Except.bind, Except.map, pure, Except.pure]

theorem memberExtent_eq_ok {p : Profile} {x : Member} {around : Option Int}
    {natural extent : Extent} (h : p.memberExtent x around natural = .ok extent) :
    extent = { natural with alignment := p.raisedAlignment x around natural.alignment } := by
  rw [memberExtent_eq] at h
  obtain ⟨-, -, h⟩ := Except.map_eq_ok.mp h
  exact h.symm

end Profile

end RecordLayout
