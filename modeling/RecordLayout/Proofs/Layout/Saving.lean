import RecordLayout.Proofs.Layout.Suggestion

/-!
# What a suggested order saves

The size of a struct without bitfields is the sum of the sizes of its members and of its padding.
The members are the same in every order, so one order is longer than another exactly when it has
more padding.

An order of falling alignment need not have the least padding.  A member whose size is no multiple
of its alignment, since it asks for an alignment of its own or has a size or an alignment that was
written for it, ends at a place where the member after it may have to leave a gap.  A suggested
order without such gaps is at least as good as every other one; with a gap it can be longer than
the declared order.

## Main definitions

* `paddingAfter` is the padding of members that are placed one after another;
* `keysFrom` are the keys of members;
* `Suggestion.IsGapless` and `Suggestion.IsSnug` are conditions on a suggestion, one on its padding
  and one on its sizes.

## Main results

* `size_eq_totalSize_add_paddingBytes`: two orders differ by their padding;
* `Suggestion.IsSnug.isGapless`: sizes that fit leave no gaps;
* `saves_of_suggestReorder`: what a suggestion saves, and when it is no worse than any order.
-/

namespace RecordLayout

open Number (isPowerOfTwo roundUp)

variable {p : Profile} {cap : Option Int}

/-! ## Padding -/

/-- The padding of members that are placed one after another from a cursor on. -/
def paddingAfter (cursor : Int) : List (Fitted p cap) → Int
  | [] => 0
  | f :: fs =>
    roundUp cursor f.extent.alignment - cursor +
      paddingAfter (roundUp cursor f.extent.alignment + f.extent.size) fs

section Padding

variable {cursor : Int} {fs gs : List (Fitted p cap)} {s : StructState}

/-- **Members end after their sizes and their padding.** -/
theorem endAfter_eq (cursor : Int) (fs : List (Fitted p cap)) :
    endAfter cursor fs = cursor + totalSize fs + paddingAfter cursor fs := by
  induction fs generalizing cursor with
  | nil => simp [endAfter, totalSize, paddingAfter]
  | cons f fs ih =>
    have hrest := ih (roundUp cursor f.extent.alignment + f.extent.size)
    simp only [totalSize, List.map_cons, List.sum_cons] at hrest ⊢
    simp only [endAfter, List.foldl_cons] at hrest ⊢
    simp only [paddingAfter]
    omega

/-- The padding is recorded in the slots. -/
theorem total_paddingBefore_pushAll (s : StructState) (fs : List (Fitted p cap)) :
    ((s.pushAll fs).slots.map fun t => t.placed.paddingBefore).sum =
      (s.slots.map fun t => t.placed.paddingBefore).sum + paddingAfter s.cursor fs := by
  induction fs generalizing s with
  | nil => simp [paddingAfter]
  | cons f fs ih =>
    rw [StructState.pushAll_cons, ih]
    simp only [StructState.push, valueSlot, List.map_append, List.sum_append, List.map_cons,
      List.map_nil, List.sum_cons, List.sum_nil, paddingAfter]
    omega

/-- Members without padding, if no slot records any. -/
theorem paddingAfter_eq_zero
    (h : ∀ t ∈ (StructState.start.pushAll fs).slots, t.placed.paddingBefore = 0) :
    paddingAfter 0 fs = 0 := by
  have htotal := total_paddingBefore_pushAll .start fs
  rw [List.sum_eq_zero (List.forall_mem_map.mpr h)] at htotal
  simpa [StructState.start] using htotal.symm

/-! ### Slots of fitted members -/

/-- The keys of the members from a position on. -/
def keysFrom (index : Nat) : List Member → List String
  | [] => []
  | x :: xs => memberKey x index :: keysFrom (index + 1) xs

theorem keys_pushAll (s : StructState) (fs : List (Fitted p cap)) :
    (s.pushAll fs).slots.map (fun t => t.placed.key) =
      s.slots.map (fun t => t.placed.key) ++ keysFrom s.count (fs.map Fitted.member) := by
  induction fs generalizing s with
  | nil => simp [keysFrom]
  | cons f fs ih =>
    rw [StructState.pushAll_cons, ih]
    simp only [StructState.push, List.map_append, List.append_assoc, List.map_cons, List.map_nil,
      keysFrom]
    rfl

/-- What is seen of the slots of members, if it does not depend on where they are. -/
theorem map_placed_pushAll {γ : Type} (view : MemberLayout → γ) (taken : Fitted p cap → γ)
    (hview : ∀ f index offset padding,
      view (valueSlot f.member index offset padding f.extent f.nested).placed = taken f)
    (s : StructState) (fs : List (Fitted p cap)) :
    (s.pushAll fs).slots.map (fun t => view t.placed) =
      s.slots.map (fun t => view t.placed) ++ fs.map taken := by
  induction fs generalizing s with
  | nil => simp
  | cons f fs ih =>
    rw [StructState.pushAll_cons, ih]
    simp only [StructState.push, List.map_append, List.append_assoc, List.map_cons, List.map_nil,
      hview]
    rfl

/-- Open-ended arrays add no other members. -/
theorem filter_pushAll_of_flexible (hfs : ∀ f ∈ fs, f.isFlexible = true) (s : StructState) :
    ((s.pushAll fs).slots.map Slot.placed).filter (fun m => !m.isFlexible) =
      (s.slots.map Slot.placed).filter fun m => !m.isFlexible := by
  induction fs generalizing s with
  | nil => rfl
  | cons f fs ih =>
    rw [List.forall_mem_cons] at hfs
    have hflexible (index : Nat) (offset padding : Int) :
        (valueSlot f.member index offset padding f.extent f.nested).placed.isFlexible = true :=
      hfs.1
    rw [StructState.pushAll_cons, ih hfs.2]
    simp [StructState.push, hflexible]

/-- The direct members of a suggested layout that are no open-ended arrays are those that were
sorted. -/
theorem filter_placeAll_suggested (fs : List (Fitted p cap)) :
    ((placeAll (suggested fs)).slots.map Slot.placed).filter (fun m => !m.isFlexible) =
      (StructState.start.pushAll (movable fs)).slots.map Slot.placed := by
  have hslots : (placeAll (suggested fs)).slots =
      ((StructState.start.pushAll (movable fs)).pushAll (trailing fs)).slots := by
    rw [placeAll, suggested, StructState.pushAll, List.foldl_append]
    rfl
  rw [hslots, filter_pushAll_of_flexible fun f hf => (mem_trailing.mp hf).2]
  refine List.filter_eq_self.mpr (List.forall_mem_map.mpr fun t ht => ?_)
  obtain ⟨f, hf, index, offset, padding, rfl⟩ :=
    (exists_of_mem_slots ht).resolve_left List.not_mem_nil
  have hflexible : f.isFlexible = false := (mem_movable.mp hf).2
  show (!f.isFlexible) = true
  rw [hflexible]
  rfl

end Padding

/-! ## Suggestions -/

/-- No member of the suggested order has padding before it, but for an open-ended array. -/
def Suggestion.IsGapless (s : Suggestion) : Prop :=
  ∀ m ∈ s.layout.direct, m.isFlexible = false → m.paddingBefore = 0

/-- In the suggested order the size of every member is a multiple of all later alignments.  An
open-ended array does not count. -/
def Suggestion.IsSnug (s : Suggestion) : Prop :=
  (s.layout.direct.filter fun m => !m.isFlexible).Pairwise fun m n => n.alignment ∣ m.size

section Suggestions

variable {a : Aggregate} {r : LayoutResult} {s : Suggestion} {fs : List (Fitted p cap)}
  {alignment : Int}

/-- The size of a struct without bitfields is that of its members and its padding. -/
theorem size_eq_totalSize_add_paddingBytes (hr : a.finish (placeAll fs) = .ok r) :
    r.size = totalSize fs + r.paddingBytes := by
  have hdirect := direct_placeAll fs
  have htotal := total_paddingBefore_pushAll .start fs
  have hend := endAfter_eq 0 fs
  have hcursor := cursor_pushAll .start fs
  obtain ⟨alignment, -, rfl⟩ := Except.map_eq_ok.mp hr
  simp only [LayoutResult.paddingBytes, LayoutResult.direct, hdirect, List.map_map]
  change _ = _ + (((StructState.start.pushAll fs).slots.map fun t => t.placed.paddingBefore).sum +
      (roundUp (StructState.start.pushAll fs).cursor alignment -
        (StructState.start.pushAll fs).cursor))
  change roundUp (StructState.start.pushAll fs).cursor alignment = _
  rw [htotal, hcursor]
  simp only [StructState.start, List.map_nil, List.sum_nil] at hend ⊢
  omega

/-- What a suggestion comes from. -/
theorem suggestReorder_eq_ok {node : TypeNode}
    (h : suggestReorder (layoutOf p) node = .ok (some s)) :
    ∃ a r, node = .aggregate a ∧ a.kind = .struct ∧ (∀ x ∈ a.members, x.isBitfield = false) ∧
      layoutOf p (.aggregate a) = .ok r ∧ s.members = suggestedOrder r a.members ∧
      layoutOf p (.aggregate { a with members := s.members }) = .ok s.layout ∧
      s.declaredSize = r.size := by
  cases node with
  | primitive | array | flexibleArray | bitfield | incomplete | unknown => cases h
  | aggregate a =>
    by_cases hsorted : a.kind = .struct ∧ a.members.any Member.isBitfield = false
    · obtain ⟨hkind, hbits⟩ := hsorted
      rw [suggestReorder_struct _ hkind hbits] at h
      obtain ⟨r, hr, h⟩ := Except.bind_eq_ok.mp h
      obtain ⟨best, hbest, h⟩ := Except.bind_eq_ok.mp h
      obtain rfl := Option.some.inj (Except.pure_eq_ok.mp h)
      refine ⟨a, r, rfl, hkind, fun x hx => ?_, hr, rfl, hbest, rfl⟩
      exact Bool.eq_false_iff.mpr (List.any_eq_false.mp hbits x hx)
    · rw [suggestReorder_eq_none _ hsorted] at h
      cases h

/-- The direct members of a struct without bitfields. -/
theorem direct_of_finish (hr : a.finish (placeAll fs) = .ok r) :
    r.direct = (placeAll fs).slots.map Slot.placed := by
  obtain ⟨alignment, -, rfl⟩ := Except.map_eq_ok.mp hr
  exact direct_placeAll fs

/-- Members with distinct keys have distinct keys in the layout. -/
theorem nodup_keys_direct (hr : a.finish (placeAll fs) = .ok r)
    (hkeys : (keysFrom 0 (fs.map Fitted.member)).Nodup) : (r.direct.map (·.key)).Nodup := by
  have hpush := keys_pushAll .start fs
  rw [direct_of_finish hr, List.map_map]
  change ((StructState.start.pushAll fs).slots.map fun t => t.placed.key).Nodup
  rw [hpush]
  exact hkeys

/-- A suggestion for members with distinct keys is the layout of what they take, in the order of
falling alignment. -/
theorem exists_fitted_of_suggestReorder (hkeys : (keysFrom 0 a.members).Nodup)
    (h : suggestReorder (layoutOf p) (.aggregate a) = .ok (some s)) :
    ∃ cap r, ∃ fs : List (Fitted p cap), a.packCap = .ok cap ∧ a.kind = .struct ∧
      (∀ f ∈ fs, f.member.isBitfield = false) ∧ fs.map Fitted.member = a.members ∧
      (trailing fs).length ≤ 1 ∧ layoutOf p (.aggregate a) = .ok r ∧
      a.finish (placeAll fs) = .ok r ∧ s.declaredSize = r.size ∧
      s.members = (suggested fs).map Fitted.member ∧
      ({ a with members := s.members } : Aggregate).finish (placeAll (suggested fs)) =
        .ok s.layout := by
  obtain ⟨_, r, ⟨⟩, hkind, hbits, hr, hmembers, hlayout, hsize⟩ := suggestReorder_eq_ok h
  obtain ⟨cap, hcap, hlast, fs, hfs, hfinish⟩ := (layoutOf_eq_ok_iff hkind hbits).mp hr
  rw [← hfs] at hkeys hlast hmembers hbits
  rw [suggestedOrder_eq (nodup_keys_direct hfinish hkeys) hfinish] at hmembers
  rw [List.forall_mem_map] at hbits
  have hbits' : ∀ x ∈ s.members, x.isBitfield = false := by
    rw [hmembers]
    exact List.forall_mem_map.mpr fun f hf => hbits f ((suggested_perm fs).mem_iff.mp hf)
  have hiff := layoutOf_eq_ok_iff (p := p) (a := { a with members := s.members }) (r := s.layout)
    hkind hbits'
  obtain ⟨cap', hcap', -, gs, hgs, hfinish'⟩ := hiff.mp hlayout
  obtain rfl : cap = cap' := Except.ok.inj (hcap.symm.trans hcap')
  obtain rfl : gs = suggested fs := by
    refine List.map_injective_iff.mpr Fitted.member_injective ?_
    exact hgs.trans hmembers
  exact ⟨cap, r, fs, hcap, hkind, hbits, hfs, hlast.eq_append.2, hr, hfinish, hsize, hmembers,
    hfinish'⟩

/-- A suggestion without gaps has no padding before the members that were sorted. -/
theorem Suggestion.IsGapless.paddingAfter_eq_zero (h : s.IsGapless)
    (hfinish : a.finish (placeAll (suggested fs)) = .ok s.layout) :
    paddingAfter 0 (movable fs) = 0 := by
  refine RecordLayout.paddingAfter_eq_zero fun t ht => ?_
  have hmem : t.placed ∈ ((placeAll (suggested fs)).slots.map Slot.placed).filter
      fun m => !m.isFlexible := by
    rw [filter_placeAll_suggested]
    exact List.mem_map_of_mem ht
  obtain ⟨hdirect, hflexible⟩ := List.mem_filter.mp hmem
  rw [← direct_of_finish hfinish] at hdirect
  exact h t.placed hdirect ((Bool.not_eq_true' _).mp hflexible)

/-- **A snug order leaves no gaps.** -/
theorem Suggestion.IsSnug.isGapless (h : s.IsSnug)
    (hfinish : a.finish (placeAll (suggested fs)) = .ok s.layout) : s.IsGapless := by
  have hpairs : (movable fs).Pairwise fun f g => g.extent.alignment ∣ f.extent.size := by
    have hextents := map_placed_pushAll (fun m => (m.size, m.alignment))
      (fun f : Fitted p cap => (f.extent.size, f.extent.alignment)) (fun _ _ _ _ => rfl) .start
      (movable fs)
    simp only [StructState.start, List.map_nil, List.nil_append] at hextents
    have hslots : (StructState.start.pushAll (movable fs)).slots.Pairwise fun t u =>
        u.placed.alignment ∣ t.placed.size := by
      rw [← List.pairwise_map (R := fun m n : MemberLayout => n.alignment ∣ m.size)]
      rw [← filter_placeAll_suggested, ← direct_of_finish hfinish]
      exact h
    rw [← List.pairwise_map (f := fun f : Fitted p cap => (f.extent.size, f.extent.alignment))
      (R := fun m n : Int × Int => n.2 ∣ m.1), ← hextents, List.pairwise_map]
    exact hslots
  intro m hm hflexible
  have hmem : m ∈ (StructState.start.pushAll (movable fs)).slots.map Slot.placed := by
    rw [← filter_placeAll_suggested, ← direct_of_finish hfinish]
    exact List.mem_filter.mpr ⟨hm, (Bool.not_eq_true' _).mpr hflexible⟩
  obtain ⟨t, ht, rfl⟩ := List.mem_map.mp hmem
  have hdvd : ∀ f ∈ movable fs, f.extent.alignment ∣ StructState.start.cursor :=
    fun f _ => Int.dvd_zero f.extent.alignment
  exact (padding_pushAll_of_dvd hpairs hdvd ht).resolve_left List.not_mem_nil

end Suggestions

/-- **What a suggestion saves.**  For members with distinct keys the suggested order differs from
the declared one by the padding of the two.  If it leaves no gaps, then no order of the members
takes less room; it leaves none if each size is a multiple of all later alignments. -/
theorem saves_of_suggestReorder {a : Aggregate} {s : Suggestion}
    (hkeys : (keysFrom 0 a.members).Nodup)
    (h : suggestReorder (layoutOf p) (.aggregate a) = .ok (some s)) :
    ∃ r, layoutOf p (.aggregate a) = .ok r ∧ s.declaredSize = r.size ∧
      s.layout.size - r.size = s.layout.paddingBytes - r.paddingBytes ∧
      (s.IsGapless → IsLeast (a.orderSizes p) s.layout.size ∧ s.layout.size ≤ s.declaredSize) ∧
      (s.IsSnug → s.IsGapless) := by
  obtain ⟨cap, r, fs, hcap, hkind, hbits, hfs, htrailing, hr, hfinish, hdeclared, hmembers,
    hfinish'⟩ := exists_fitted_of_suggestReorder hkeys h
  refine ⟨r, hr, hdeclared, ?_, fun hgapless => ?_, fun hsnug => hsnug.isGapless hfinish'⟩
  · have hsize := size_eq_totalSize_add_paddingBytes hfinish
    have hsize' := size_eq_totalSize_add_paddingBytes hfinish'
    rw [totalSize_of_perm (suggested_perm fs)] at hsize'
    omega
  · have hzero := hgapless.paddingAfter_eq_zero hfinish'
    have hends : endAfter 0 (movable fs) = totalSize (movable fs) := by
      rw [endAfter_eq, hzero]
      omega
    obtain ⟨alignment, halignment, hsize, -⟩ := size_of_finish hfinish
    obtain ⟨alignment', halignment', hsize', -⟩ := size_of_finish hfinish'
    rw [alignment_placeAll_of_perm (suggested_perm fs)] at halignment'
    obtain rfl : alignment = alignment' := Except.ok.inj (halignment.symm.trans halignment')
    have hleast : IsLeast (a.orderSizes p) s.layout.size := by
      constructor
      · refine ⟨s.members, s.layout, ?_, ?_, rfl⟩
        · rw [hmembers, ← hfs]
          exact (suggested_perm fs).map Fitted.member
        · obtain ⟨_, _, ⟨⟩, -, -, -, -, hlayout, -⟩ := suggestReorder_eq_ok h
          exact hlayout
      · rintro n ⟨members, r', hperm, hr', rfl⟩
        obtain ⟨gs, hgs, hlast, hr'⟩ :=
          exists_perm_of_layoutOf hkind hbits hcap halignment (hfs ▸ hperm) hr'
        rw [hr', hsize']
        exact Number.roundUp_mono (endAfter_suggested_le_of_eq hends htrailing hgs hlast) _
    refine ⟨hleast, ?_⟩
    rw [hdeclared]
    refine hleast.2 ⟨a.members, r, List.Perm.refl _, ?_, rfl⟩
    cases a
    exact hr

end RecordLayout
