import Mathlib.Algebra.BigOperators.Group.List.Basic
import Mathlib.Algebra.Order.Group.Int
import Mathlib.Algebra.Ring.Int.Defs
import RecordLayout.Proofs.Layout.ByteMembers
import RecordLayout.Proofs.Number.Rounding

/-!
# Orders of falling alignment

Members that are placed one after another take at least the sum of their sizes.  Where each size is
a multiple of the alignment, an order of falling alignment takes no more: alignments are powers of
two, so whatever was placed before ends at a multiple of the next alignment.

An open-ended array is last in every order, so only the members before it are sorted.

## Main definitions

* `endAfter` is where members end that are placed one after another;
* `Falling` orders leave no gap;
* `suggested` is the suggested order of fitted members.

## Main results

* `add_totalSize_le_endAfter` and `Falling.endAfter_eq`: the bound, and when it is met;
* `falling_movable`: sorting makes a falling order;
* `endAfter_suggested_le`: no order ends before the suggested one.
-/

namespace RecordLayout

open Number (isPowerOfTwo roundUp)

variable {p : Profile} {cap : Option Int}

/-! ## One after another -/

/-- Where members end that are placed one after another from a cursor on. -/
def endAfter (cursor : Int) (fs : List (Fitted p cap)) : Int :=
  fs.foldl (fun c f => roundUp c f.extent.alignment + f.extent.size) cursor

/-- The room that members take by themselves. -/
def totalSize (fs : List (Fitted p cap)) : Int := (fs.map fun f => f.extent.size).sum

section Ends

variable {cursor cursor' : Int} {f : Fitted p cap} {fs gs : List (Fitted p cap)}

theorem cursor_pushAll (s : StructState) (fs : List (Fitted p cap)) :
    (s.pushAll fs).cursor = endAfter s.cursor fs := by
  induction fs generalizing s with
  | nil => rfl
  | cons f fs ih => exact ih _

theorem endAfter_append (cursor : Int) (fs gs : List (Fitted p cap)) :
    endAfter cursor (fs ++ gs) = endAfter (endAfter cursor fs) gs :=
  List.foldl_append

theorem endAfter_mono (h : cursor ≤ cursor') (fs : List (Fitted p cap)) :
    endAfter cursor fs ≤ endAfter cursor' fs := by
  induction fs generalizing cursor cursor' with
  | nil => exact h
  | cons f fs ih =>
    apply ih
    exact Int.add_le_add_right (Number.roundUp_mono h _) _

/-- **Every order takes at least the sum of the sizes.** -/
theorem add_totalSize_le_endAfter (cursor : Int) (fs : List (Fitted p cap)) :
    cursor + totalSize fs ≤ endAfter cursor fs := by
  induction fs generalizing cursor with
  | nil => simp [totalSize, endAfter]
  | cons f fs ih =>
    have hround := Number.le_roundUp cursor f.extent.alignment
    have hrest := ih (roundUp cursor f.extent.alignment + f.extent.size)
    simp only [totalSize, List.map_cons, List.sum_cons] at hrest ⊢
    simp only [endAfter, List.foldl_cons] at hrest ⊢
    omega

/-- Members in an order in which each alignment divides those before it, where each size is a
multiple of the alignment. -/
structure Falling (fs : List (Fitted p cap)) : Prop where
  sizes : ∀ f ∈ fs, f.extent.alignment ∣ f.extent.size
  alignments : fs.Pairwise fun f g => g.extent.alignment ∣ f.extent.alignment

/-- What is left of a falling order is falling, and fits after its first member without a gap. -/
theorem Falling.tail (h : Falling (f :: fs)) (hc : ∀ g ∈ f :: fs, g.extent.alignment ∣ cursor) :
    Falling fs ∧ ∀ g ∈ fs, g.extent.alignment ∣ cursor + f.extent.size := by
  have halignments := List.pairwise_cons.mp h.alignments
  refine ⟨⟨fun g hg => h.sizes g (List.mem_cons_of_mem f hg), halignments.2⟩, fun g hg => ?_⟩
  apply Int.dvd_add
  · exact hc g (List.mem_cons_of_mem f hg)
  · exact Int.dvd_trans (halignments.1 g hg) (h.sizes f List.mem_cons_self)

/-- **A falling order takes no more than the sum of the sizes.** -/
theorem Falling.endAfter_eq (h : Falling fs) (hc : ∀ f ∈ fs, f.extent.alignment ∣ cursor) :
    endAfter cursor fs = cursor + totalSize fs := by
  induction fs generalizing cursor with
  | nil => simp [totalSize, endAfter]
  | cons f fs ih =>
    obtain ⟨htail, hc'⟩ := h.tail hc
    have hrest := ih htail hc'
    simp only [totalSize, List.map_cons, List.sum_cons] at hrest ⊢
    rw [endAfter, List.foldl_cons, Number.roundUp_eq_of_dvd (hc f List.mem_cons_self)]
    rw [endAfter] at hrest
    omega

/-- **Slots have no padding before them** where each size is a multiple of all later alignments. -/
theorem padding_pushAll_of_dvd
    (hpairs : fs.Pairwise fun f g => g.extent.alignment ∣ f.extent.size) {s : StructState}
    (hc : ∀ f ∈ fs, f.extent.alignment ∣ s.cursor) {t : Slot} (ht : t ∈ (s.pushAll fs).slots) :
    t ∈ s.slots ∨ t.placed.paddingBefore = 0 := by
  induction fs generalizing s with
  | nil => exact .inl ht
  | cons f fs ih =>
    obtain ⟨hfirst, hrest⟩ := List.pairwise_cons.mp hpairs
    rw [List.forall_mem_cons] at hc
    have hround := Number.roundUp_eq_of_dvd hc.1
    have hc' : ∀ g ∈ fs, g.extent.alignment ∣
        (s.push f.member f.extent f.nested).cursor := by
      intro g hg
      rw [StructState.push, hround]
      exact Int.dvd_add (hc.2 g hg) (hfirst g hg)
    rcases ih hrest hc' ht with ht | ht
    · rcases List.mem_append.mp ht with ht | ht
      · exact .inl ht
      · obtain rfl := List.mem_singleton.mp ht
        exact .inr (by simp [valueSlot, hround])
    · exact .inr ht

/-- In a falling order each size is a multiple of all later alignments. -/
theorem Falling.pairwise_dvd (h : Falling fs) :
    fs.Pairwise fun f g => g.extent.alignment ∣ f.extent.size :=
  h.alignments.imp_of_mem fun hf _ hdvd => Int.dvd_trans hdvd (h.sizes _ hf)

end Ends

/-! ## The suggested order -/

/-- A fitted member as the suggestion sees it. -/
def Fitted.toPlaced (f : Fitted p cap) : PlacedMember := ⟨f.member, f.extent⟩

/-- The members that may be moved, in the suggested order. -/
def movable (fs : List (Fitted p cap)) : List (Fitted p cap) :=
  (fs.filter fun f => !f.isFlexible).mergeSort fun f g => f.toPlaced.before g.toPlaced

/-- The members that stay at the end. -/
def trailing (fs : List (Fitted p cap)) : List (Fitted p cap) := fs.filter Fitted.isFlexible

/-- Fitted members in the suggested order. -/
def suggested (fs : List (Fitted p cap)) : List (Fitted p cap) := movable fs ++ trailing fs

theorem before_trans (a b c : PlacedMember) (hab : a.before b = true) (hbc : b.before c = true) :
    a.before c = true := by
  simp only [PlacedMember.before, Bool.or_eq_true, Bool.and_eq_true, decide_eq_true_eq,
    beq_iff_eq] at *
  omega

theorem before_total (a b : PlacedMember) : (a.before b || b.before a) = true := by
  simp only [PlacedMember.before, Bool.or_eq_true, Bool.and_eq_true, decide_eq_true_eq,
    beq_iff_eq]
  omega

theorem alignment_le_of_before {a b : PlacedMember} (h : a.before b = true) :
    b.extent.alignment ≤ a.extent.alignment := by
  simp only [PlacedMember.before, Bool.or_eq_true, Bool.and_eq_true, decide_eq_true_eq,
    beq_iff_eq] at h
  omega

section Order

variable {fs gs : List (Fitted p cap)}

theorem mem_movable {f : Fitted p cap} : f ∈ movable fs ↔ f ∈ fs ∧ f.isFlexible = false := by
  simp [movable]

theorem mem_trailing {f : Fitted p cap} : f ∈ trailing fs ↔ f ∈ fs ∧ f.isFlexible = true := by
  simp [trailing]

theorem suggested_perm (fs : List (Fitted p cap)) : (suggested fs).Perm fs := by
  have hsorted := (List.mergeSort_perm (fs.filter fun f => !f.isFlexible)
    fun f g => f.toPlaced.before g.toPlaced).append_right (trailing fs)
  refine hsorted.trans (List.perm_append_comm.trans ?_)
  exact List.filter_append_perm Fitted.isFlexible fs

/-- **The suggested order is falling.** -/
theorem falling_movable (hpower : ∀ f ∈ fs, isPowerOfTwo f.extent.alignment = true)
    (hsize : ∀ f ∈ fs, f.extent.alignment ∣ f.extent.size) : Falling (movable fs) where
  sizes f hf := hsize f (mem_movable.mp hf).1
  alignments := by
    have hsorted : (movable fs).Pairwise fun f g => f.toPlaced.before g.toPlaced = true :=
      List.pairwise_mergeSort (fun f g h => before_trans f.toPlaced g.toPlaced h.toPlaced)
        (fun f g => before_total f.toPlaced g.toPlaced) _
    refine hsorted.imp_of_mem fun {f g} hf hg hbefore => ?_
    apply Number.dvd_of_le (hpower g (mem_movable.mp hg).1) (hpower f (mem_movable.mp hf).1)
    exact alignment_le_of_before hbefore

/-- Where only the last member may be open-ended, there is at most one that is, and it is last. -/
theorem OnlyLastFlexible.eq_append (h : OnlyLastFlexible (fs.map Fitted.member)) :
    fs = fs.filter (fun f => !f.isFlexible) ++ trailing fs ∧ (trailing fs).length ≤ 1 := by
  induction fs with
  | nil => exact ⟨rfl, Nat.zero_le 1⟩
  | cons f fs ih =>
    cases fs with
    | nil => cases hf : f.isFlexible <;> simp [trailing, hf]
    | cons g gs =>
      have hf : f.isFlexible = false := h f.member (by simp)
      have hrest := ih fun x hx => h x (List.mem_cons_of_mem f.member hx)
      simpa [trailing, hf] using hrest

theorem onlyLastFlexible_suggested (h : (trailing fs).length ≤ 1) :
    OnlyLastFlexible ((suggested fs).map Fitted.member) := by
  intro x hx
  rw [← List.map_dropLast] at hx
  obtain ⟨f, hf, rfl⟩ := List.mem_map.mp hx
  have hmovable : f ∈ movable fs := by
    match htrailing : trailing fs, h with
    | [], _ =>
      rw [suggested, htrailing, List.append_nil] at hf
      exact List.dropLast_subset _ hf
    | [t], _ =>
      rw [suggested, htrailing, List.dropLast_concat] at hf
      exact hf
  exact (mem_movable.mp hmovable).2

/-- The members of a struct ask for the same alignment in any order. -/
theorem alignment_placeAll_of_perm (h : gs.Perm fs) :
    (placeAll gs).alignment = (placeAll fs).alignment := by
  have hpush (s : StructState) (fs : List (Fitted p cap)) : (s.pushAll fs).alignment =
      fs.foldl (fun n f => max n f.extent.alignment) s.alignment := by
    induction fs generalizing s with
    | nil => rfl
    | cons f fs ih => exact ih _
  simp only [placeAll, hpush]
  refine h.foldl_eq' (fun f _ g _ n => ?_) _
  rw [Int.max_assoc, Int.max_comm f.extent.alignment, ← Int.max_assoc]

theorem totalSize_of_perm (h : gs.Perm fs) : totalSize gs = totalSize fs :=
  List.Perm.sum_eq (h.map fun f : Fitted p cap => f.extent.size)

/-- No order ends before the suggested one, if that leaves no gaps before an open-ended array. -/
theorem endAfter_suggested_le_of_eq (hgapless : endAfter 0 (movable fs) = totalSize (movable fs))
    (htrailing : (trailing fs).length ≤ 1) (hperm : gs.Perm fs)
    (hlast : OnlyLastFlexible (gs.map Fitted.member)) :
    endAfter 0 (suggested fs) ≤ endAfter 0 gs := by
  obtain ⟨hgs, -⟩ := hlast.eq_append
  -- Both orders end with the same open-ended array, if there is one.
  have hsame : trailing gs = trailing fs := by
    have hfilter : (trailing gs).Perm (trailing fs) := hperm.filter _
    match h : trailing fs, htrailing with
    | [], _ => rwa [h, List.perm_nil] at hfilter
    | [t], _ => rwa [h, List.perm_singleton] at hfilter
  have hmovable : (gs.filter fun f => !f.isFlexible).Perm (movable fs) :=
    (hperm.filter _).trans (List.mergeSort_perm _ _).symm
  rw [hgs, hsame, suggested, endAfter_append, endAfter_append]
  refine endAfter_mono ?_ (trailing fs)
  calc endAfter 0 (movable fs) = 0 + totalSize (movable fs) := by rw [hgapless, Int.zero_add]
    _ = 0 + totalSize (gs.filter fun f => !f.isFlexible) := by rw [totalSize_of_perm hmovable]
    _ ≤ endAfter 0 (gs.filter fun f => !f.isFlexible) := add_totalSize_le_endAfter 0 _

/-- **No order ends before the suggested one.** -/
theorem endAfter_suggested_le (hpower : ∀ f ∈ fs, isPowerOfTwo f.extent.alignment = true)
    (hsize : ∀ f ∈ fs, f.extent.alignment ∣ f.extent.size) (htrailing : (trailing fs).length ≤ 1)
    (hperm : gs.Perm fs) (hlast : OnlyLastFlexible (gs.map Fitted.member)) :
    endAfter 0 (suggested fs) ≤ endAfter 0 gs := by
  refine endAfter_suggested_le_of_eq ?_ htrailing hperm hlast
  rw [(falling_movable hpower hsize).endAfter_eq fun _ _ => Int.dvd_zero _, Int.zero_add]

end Order

end RecordLayout
