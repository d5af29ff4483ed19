import Mathlib.Data.List.Nodup
import Mathlib.Data.List.Perm.Basic
import RecordLayout.Proofs.Layout.Reorder

/-!
# The suggested order by positions

A suggestion moves members, and members of a struct may be equal to each other.  What it does to
them is therefore said of their positions: the suggested order is a list of the positions in the
declared order, each once, in which one position stands before another for a reason that can be
named.  Either the second member is open-ended and the first is not, or both are, or the first has
the greater alignment, or the same and the greater size; where none of this decides, the position
itself does.

## Main definitions

* `arranged` is the suggested order of members that have been measured;
* `StandsBefore` is the reason for one position to stand before another.

## Main results

* `pairwise_mergeSort_numbered`: a merge sort keeps ties in order;
* `arranged_map`: a change that leaves the measures alone leaves the suggested order alone;
* `exists_positions_arranged`: the suggested order by positions;
* `getLast?_positions_iff`: when the last position stays last.
-/

namespace RecordLayout

/-! ## Sorting what is numbered -/

section Sublists

variable {α : Type} {x y : α} {l : List α}

/-- Of two items of a list one stands before the other. -/
theorem sublist_pair_or (hx : x ∈ l) (hy : y ∈ l) (hne : x ≠ y) :
    [x, y].Sublist l ∨ [y, x].Sublist l := by
  induction l with
  | nil => exact absurd hx List.not_mem_nil
  | cons z l ih =>
    rcases List.mem_cons.mp hx with rfl | hx'
    · left
      exact .cons_cons _ (List.singleton_sublist.mpr (List.mem_of_ne_of_mem hne.symm hy))
    · rcases List.mem_cons.mp hy with rfl | hy'
      · exact .inr (.cons_cons _ (List.singleton_sublist.mpr hx'))
      · exact (ih hx' hy').imp (.cons _) (.cons _)

/-- Where no item comes twice, no two stand before each other. -/
theorem not_sublist_pair_swap (h : l.Nodup) (hxy : [x, y].Sublist l) : ¬ [y, x].Sublist l := by
  intro hyx
  induction l with
  | nil => cases hxy
  | cons z l ih =>
    obtain ⟨hz, hl⟩ := List.nodup_cons.mp h
    cases hxy with
    | cons _ hxy =>
      cases hyx with
      | cons _ hyx => exact ih hl hxy hyx
      | cons_cons _ hyx => exact hz (hxy.mem (by simp))
    | cons_cons _ hxy =>
      cases hyx with
      | cons _ hyx => exact hz (hyx.mem (by simp))
      | cons_cons _ hyx => exact hz (hxy.mem (by simp))

end Sublists

/-- **A merge sort keeps ties in order**: of numbered items, in the order of their numbers, one stands
before another because it is no greater, and because of its number if the other is no greater
either. -/
theorem pairwise_mergeSort_numbered {α : Type} {le : α → α → Bool}
    (trans : ∀ x y z, le x y = true → le y z = true → le x z = true)
    (total : ∀ x y, (le x y || le y x) = true) {l : List (α × Nat)}
    (h : l.Pairwise fun x y => x.2 < y.2) :
    (l.mergeSort fun x y => le x.1 y.1).Pairwise fun x y =>
      le x.1 y.1 = true ∧ (le y.1 x.1 = true → x.2 < y.2) := by
  have trans' (x y z : α × Nat) := trans x.1 y.1 z.1
  have total' (x y : α × Nat) := total x.1 y.1
  have hnodup : l.Nodup := h.imp fun hlt heq => by
    rw [heq] at hlt
    exact Nat.lt_irrefl _ hlt
  have hperm := l.mergeSort_perm fun x y => le x.1 y.1
  have hsorted := List.pairwise_mergeSort trans' total' l
  rw [List.pairwise_iff_forall_sublist] at h hsorted ⊢
  intro x y hxy
  refine ⟨hsorted hxy, fun hback => ?_⟩
  have hne : x ≠ y := by
    rintro rfl
    exact not_sublist_pair_swap (hperm.nodup_iff.mpr hnodup) hxy hxy
  -- A tie that was the other way round before would still be so.
  rcases sublist_pair_or (hperm.mem_iff.mp (hxy.mem (by simp)))
    (hperm.mem_iff.mp (hxy.mem (by simp))) hne with hbefore | hafter
  · exact h hbefore
  · have hkept := List.pair_sublist_mergeSort trans' total' hback hafter
    exact absurd hkept (not_sublist_pair_swap (hperm.nodup_iff.mpr hnodup) hxy)

/-! ## The suggested order -/

/-- Measured members in the suggested order. -/
def arranged (placed : List PlacedMember) : List PlacedMember :=
  (placed.filter fun x => !x.member.isFlexible).mergeSort PlacedMember.before ++
    placed.filter fun x => x.member.isFlexible

theorem suggestedOrder_eq_arranged (r : LayoutResult) (members : List Member) :
    suggestedOrder r members = (arranged (placedMembers r 0 members)).map (·.member) := rfl

theorem arranged_perm (placed : List PlacedMember) : (arranged placed).Perm placed := by
  have hsorted := (placed.filter fun x => !x.member.isFlexible).mergeSort_perm PlacedMember.before
  refine (hsorted.append_right _).trans (List.perm_append_comm.trans ?_)
  exact List.filter_append_perm (fun x : PlacedMember => x.member.isFlexible) placed

/-- The suggested order looks at whether members are open-ended and at how they compare. -/
theorem arranged_map {f : PlacedMember → PlacedMember}
    (hflexible : ∀ x, (f x).member.isFlexible = x.member.isFlexible)
    (hbefore : ∀ x y, (f x).before (f y) = x.before y) (placed : List PlacedMember) :
    arranged (placed.map f) = (arranged placed).map f := by
  have htrailing : (fun x : PlacedMember => x.member.isFlexible) ∘ f =
      fun x => x.member.isFlexible := funext hflexible
  have hmovable : (fun x : PlacedMember => !x.member.isFlexible) ∘ f =
      fun x => !x.member.isFlexible := funext fun x => congrArg not (hflexible x)
  have hsort (xs : List PlacedMember) : (xs.map f).mergeSort PlacedMember.before =
      (xs.mergeSort PlacedMember.before).map f :=
    (List.map_mergeSort fun x _ y _ => (hbefore x y).symm).symm
  rw [arranged, List.filter_map, List.filter_map, hmovable, htrailing, hsort, arranged,
    List.map_append]

/-- The reason for the member `x` from position `i` to stand before the member `y` from position
`j`. -/
def StandsBefore (x y : PlacedMember) (i j : Nat) : Prop :=
  (x.member.isFlexible = false ∧ y.member.isFlexible = true) ∨
  (x.member.isFlexible = true ∧ y.member.isFlexible = true ∧ i < j) ∨
  (x.member.isFlexible = false ∧ y.member.isFlexible = false ∧ x.before y = true ∧
    (y.before x = true → i < j))

/-- **The suggested order by positions**: each position of the declared order comes once, and for
each two of them there is a reason for their order. -/
theorem exists_positions_arranged (placed : List PlacedMember) :
    ∃ order : List Nat, order.Perm (List.range placed.length) ∧
      (arranged placed).map some = order.map (placed[·]?) ∧
      order.Pairwise fun i j => ∀ x y, placed[i]? = some x → placed[j]? = some y →
        StandsBefore x y i j := by
  let movable := (placed.zipIdx.filter fun x => !x.1.member.isFlexible)
  let trailing := (placed.zipIdx.filter fun x => x.1.member.isFlexible)
  let numbered := movable.mergeSort (fun x y => x.1.before y.1) ++ trailing
  have hincreasing : placed.zipIdx.Pairwise fun x y => x.2 < y.2 := by
    rw [← List.pairwise_map (f := Prod.snd), List.zipIdx_map_snd]
    exact List.pairwise_lt_range' 1
  have hperm : numbered.Perm placed.zipIdx := by
    refine ((movable.mergeSort_perm _).append_right trailing).trans ?_
    refine List.perm_append_comm.trans ?_
    exact List.filter_append_perm (fun x : PlacedMember × Nat => x.1.member.isFlexible) _
  have hfst : numbered.map Prod.fst = arranged placed := by
    have hmovable : movable.map Prod.fst = placed.filter fun x => !x.member.isFlexible := by
      conv_rhs => rw [← List.zipIdx_map_fst 0 placed, List.filter_map]
      rfl
    have htrailing : trailing.map Prod.fst = placed.filter fun x => x.member.isFlexible := by
      conv_rhs => rw [← List.zipIdx_map_fst 0 placed, List.filter_map]
      rfl
    have hsort := List.map_mergeSort (r := fun x y : PlacedMember × Nat => x.1.before y.1)
      (s := PlacedMember.before) (f := Prod.fst) (l := movable) fun _ _ _ _ => rfl
    rw [List.map_append, hsort, hmovable, htrailing, arranged]
  have hget : ∀ x ∈ numbered, placed[x.2]? = some x.1 := fun x hx =>
    List.mem_zipIdx_iff_getElem?.mp (hperm.mem_iff.mp hx)
  refine ⟨numbered.map Prod.snd, ?_, ?_, ?_⟩
  · have hsnd := hperm.map Prod.snd
    rwa [List.zipIdx_map_snd, ← List.range_eq_range'] at hsnd
  · rw [← hfst, List.map_map, List.map_map]
    exact List.map_congr_left fun x hx => (hget x hx).symm
  · have hsorted : numbered.Pairwise fun x y => StandsBefore x.1 y.1 x.2 y.2 := by
      rw [List.pairwise_append]
      refine ⟨?_, ?_, fun x hx y hy => ?_⟩
      · have hties := pairwise_mergeSort_numbered before_trans before_total
          (hincreasing.sublist (List.filter_sublist (p := fun x => !x.1.member.isFlexible)))
        refine hties.imp_of_mem fun {x y} hx hy hxy => .inr (.inr ⟨?_, ?_, hxy⟩)
        · simpa using (List.mem_filter.mp (List.mem_mergeSort.mp hx)).2
        · simpa using (List.mem_filter.mp (List.mem_mergeSort.mp hy)).2
      · refine (hincreasing.sublist List.filter_sublist).imp_of_mem fun {x y} hx hy hlt => ?_
        exact .inr (.inl ⟨(List.mem_filter.mp hx).2, (List.mem_filter.mp hy).2, hlt⟩)
      · refine .inl ⟨?_, (List.mem_filter.mp hy).2⟩
        simpa using (List.mem_filter.mp (List.mem_mergeSort.mp hx)).2
    rw [List.pairwise_map]
    refine hsorted.imp_of_mem fun {x y} hx hy hxy => ?_
    intro x' y' hx' hy'
    obtain rfl := Option.some.inj ((hget x hx).symm.trans hx')
    obtain rfl := Option.some.inj ((hget y hy).symm.trans hy')
    exact hxy

/-- **When the last position stays last**: when there is no reason for it to stand before another
one. -/
theorem getLast?_positions_iff {n : Nat} {order : List Nat} {R : Nat → Nat → Prop}
    (hperm : order.Perm (List.range (n + 1))) (hsorted : order.Pairwise R) :
    (order.getLast? = some n → ∀ i < n, R i n) ∧
      ((∀ i < n, ¬ R n i) → order.getLast? = some n) := by
  have hnodup : order.Nodup := hperm.nodup_iff.mpr List.nodup_range
  have hmem (i : Nat) : i ∈ order ↔ i < n + 1 := by
    rw [hperm.mem_iff, List.mem_range]
  constructor
  · intro hlast i hi
    obtain ⟨before, rfl⟩ := List.getLast?_eq_some_iff.mp hlast
    rw [List.pairwise_append] at hsorted
    have hi' : i ∈ before := by
      have hi' := (hmem i).mpr (by omega)
      rw [List.mem_append, List.mem_singleton] at hi'
      exact hi'.resolve_right (by omega)
    exact hsorted.2.2 i hi' n List.mem_cons_self
  · intro hfree
    obtain ⟨before, after, rfl⟩ := List.append_of_mem ((hmem n).mpr (by omega))
    cases after with
    | nil => simp
    | cons i after =>
      exfalso
      rw [List.pairwise_append, List.pairwise_cons] at hsorted
      have hlt : i < n := by
        have hi := (hmem i).mp (by simp)
        have hne : n ≠ i := by
          have htail := List.nodup_cons.mp (List.nodup_append.mp hnodup).2.1
          rintro rfl
          exact htail.1 List.mem_cons_self
        omega
      exact hfree i hlt (hsorted.2.1.1 i List.mem_cons_self)

end RecordLayout
