import Mathlib.Order.Bounds.Basic
import RecordLayout.Proofs.KeyedList
import RecordLayout.Proofs.Layout.Aligned
import RecordLayout.Proofs.Layout.Coherence
import RecordLayout.Proofs.Layout.Ordinary
import RecordLayout.Proofs.Layout.StableOrder

/-!
# The suggested order is the best one

For a struct without bitfields whose members have sizes that are multiples of their alignments, no
order of the members takes less room than the suggested one, and the bytes that the suggestion saves
are those that separate the declared order from the best.

The suggestion reads the sizes and the alignments off the layout in the declared order, by the keys
of the members.  With distinct keys each member is found, and what it takes is the same in every
order.

## Main definitions

* `Aggregate.orderSizes` are the sizes that the orders of the members have;
* `Suggestion.IsBest` says what a suggestion should be.

## Main results

* `suggestedOrder_eq`: the suggestion sorts by what the members take;
* `Engine.suggestReorder_eq`: a suggestion made by way of an engine is the plain one;
* `suggestReorder_isBest`: no order of the members takes less room than the suggested one.
-/

namespace RecordLayout

open Number (isPowerOfTwo roundUp)

variable {p : Profile} {cap : Option Int}

/-! ## Layouts of fitted members -/

section Slots

variable {s : StructState} {f : Fitted p cap} {fs : List (Fitted p cap)}

theorem subset_slots_pushAll (s : StructState) (fs : List (Fitted p cap)) :
    s.slots ⊆ (s.pushAll fs).slots := by
  induction fs generalizing s with
  | nil => exact List.Subset.refl _
  | cons f fs ih =>
    have hpush : s.slots ⊆ (s.push f.member f.extent f.nested).slots :=
      List.subset_append_left _ _
    exact List.Subset.trans hpush (ih _)

/-- Every slot is that of one of the members. -/
theorem exists_of_mem_slots {t : Slot} (ht : t ∈ (s.pushAll fs).slots) :
    t ∈ s.slots ∨ ∃ f ∈ fs, ∃ index offset padding,
      t = valueSlot f.member index offset padding f.extent f.nested := by
  induction fs generalizing s with
  | nil => exact .inl ht
  | cons f fs ih =>
    rcases ih ht with ht | ⟨g, hg, hslot⟩
    · rcases List.mem_append.mp ht with ht | ht
      · exact .inl ht
      · exact .inr ⟨f, List.mem_cons_self, _, _, _, List.mem_singleton.mp ht⟩
    · exact .inr ⟨g, List.mem_cons_of_mem f hg, hslot⟩

/-- Every member has a slot. -/
theorem exists_slot_of_mem (hf : f ∈ fs) (s : StructState) :
    ∃ t ∈ (s.pushAll fs).slots, t.placed.size = f.extent.size ∧
      t.placed.alignment = f.extent.alignment := by
  induction fs generalizing s with
  | nil => simp at hf
  | cons g fs ih =>
    rcases List.mem_cons.mp hf with rfl | hf
    · exact ⟨_, subset_slots_pushAll _ fs (List.mem_append_right _ List.mem_cons_self), rfl, rfl⟩
    · exact ih hf _

/-- What is promoted from a slot has no padding of its own and is marked. -/
theorem valueSlot_promoted {x : Member} {index : Nat} {offset padding : Int} {extent : Extent}
    {nested : Option LayoutResult} {m : MemberLayout}
    (hm : m ∈ (valueSlot x index offset padding extent nested).promoted) :
    m.promoted = true ∧ m.paddingBefore = 0 := by
  simp only [valueSlot] at hm
  split at hm
  · obtain ⟨g, -, rfl⟩ := List.mem_map.mp hm
    exact ⟨rfl, rfl⟩
  · simp at hm

/-- The direct members of the layout are those of the slots. -/
theorem direct_placeAll (fs : List (Fitted p cap)) :
    (placeAll fs).members.filter (fun m => !m.promoted) = (placeAll fs).slots.map Slot.placed := by
  have hslot : ∀ t ∈ (placeAll fs).slots, t.members.filter (fun m => !m.promoted) = [t.placed] := by
    intro t ht
    obtain ⟨f, -, index, offset, padding, rfl⟩ :=
      (exists_of_mem_slots ht).resolve_left List.not_mem_nil
    have hpromoted : (valueSlot f.member index offset padding f.extent f.nested).promoted.filter
        (fun m => !m.promoted) = [] :=
      List.filter_eq_nil_iff.mpr fun m hm => by simp [(valueSlot_promoted hm).1]
    simp only [Slot.members, valueSlot, if_true] at hpromoted ⊢
    simp [hpromoted]
  rw [Sequenced.members, List.filter_flatMap, List.map_eq_flatMap]
  exact List.flatMap_congr hslot

end Slots

/-- Every member is seen with the extent that it has in the layout. -/
theorem placedMembers_eq {r : LayoutResult} {fs : List (Fitted p cap)} {s : StructState}
    (h : ∀ t ∈ (s.pushAll fs).slots, r.directExtent? t.placed.key =
      some ⟨t.placed.size, t.placed.alignment, t.placed.sizeIsFlag⟩) :
    placedMembers r s.count (fs.map Fitted.member) = fs.map Fitted.toPlaced := by
  induction fs generalizing s with
  | nil => rfl
  | cons f fs ih =>
    have hslot := h _ (subset_slots_pushAll _ fs (List.mem_append_right _ List.mem_cons_self))
    have hrest := ih (s := s.push f.member f.extent f.nested) h
    simp only [valueSlot] at hslot
    simp only [List.map_cons, placedMembers, hslot]
    exact congrArg _ hrest

/-- Fitted members are sorted by what they take. -/
theorem arranged_toPlaced (fs : List (Fitted p cap)) :
    arranged (fs.map Fitted.toPlaced) = (suggested fs).map Fitted.toPlaced := by
  have hsort : ((fs.map Fitted.toPlaced).filter fun x => !x.member.isFlexible).mergeSort
      PlacedMember.before = (movable fs).map Fitted.toPlaced := by
    rw [List.filter_map, movable]
    refine (List.map_mergeSort ?_).symm
    exact fun _ _ _ _ => rfl
  have htrailing : ((fs.map Fitted.toPlaced).filter fun x => x.member.isFlexible) =
      (trailing fs).map Fitted.toPlaced := List.filter_map
  rw [arranged, hsort, htrailing, suggested, List.map_append]

section Suggestion

variable {a : Aggregate} {r : LayoutResult} {fs : List (Fitted p cap)}

/-- Direct members with distinct keys are found by them. -/
theorem directExtent?_eq (hkeys : (r.direct.map (·.key)).Nodup) {m : MemberLayout}
    (hm : m ∈ r.direct) : r.directExtent? m.key = some ⟨m.size, m.alignment, m.sizeIsFlag⟩ := by
  have hfind : r.members.find? (fun n => n.key == m.key && !n.promoted) = some m := by
    have h := (find?_eq_some_iff_of_nodup hkeys).mpr ⟨hm, rfl⟩
    rw [LayoutResult.direct, List.find?_filter] at h
    rw [← h]
    congr 1
    funext n
    rw [Bool.decide_and, Bool.decide_eq_true, Bool.decide_eq_true, Bool.and_comm]
  rw [LayoutResult.directExtent?, hfind]
  rfl

/-- **The suggestion sorts by what the members take.** -/
theorem suggestedOrder_eq (hkeys : (r.direct.map (·.key)).Nodup)
    (hr : a.finish (placeAll fs) = .ok r) :
    suggestedOrder r (fs.map Fitted.member) = (suggested fs).map Fitted.member := by
  have hdirect : r.direct = (placeAll fs).slots.map Slot.placed := by
    obtain ⟨alignment, -, rfl⟩ := Except.map_eq_ok.mp hr
    exact direct_placeAll fs
  have hplaced : placedMembers r 0 (fs.map Fitted.member) = fs.map Fitted.toPlaced := by
    refine placedMembers_eq (s := .start) fun t ht => directExtent?_eq hkeys ?_
    rw [hdirect]
    exact List.mem_map_of_mem ht
  rw [suggestedOrder_eq_arranged, hplaced, arranged_toPlaced, List.map_map]
  rfl

end Suggestion

/-! ## Sizes of orders -/

/-- The suggestion for a struct without bitfields. -/
theorem suggestReorder_struct {m : Type → Type} [Monad m] (layout : TypeNode → m LayoutResult)
    {a : Aggregate} (hkind : a.kind = .struct) (hbits : a.members.any Member.isBitfield = false) :
    suggestReorder layout (.aggregate a) = do
      let current ← layout (.aggregate a)
      let members := suggestedOrder current a.members
      let reordered ← layout (.aggregate { a with members })
      return some ⟨members, reordered, current.size⟩ := by
  obtain ⟨kind, members, name, pack, attributes, origin⟩ := a
  obtain rfl : kind = .struct := hkind
  exact if_neg (Bool.eq_false_iff.mp hbits)

/-- Nothing else has a suggestion. -/
theorem suggestReorder_eq_none {m : Type → Type} [Monad m] (layout : TypeNode → m LayoutResult)
    {a : Aggregate} (h : ¬ (a.kind = .struct ∧ a.members.any Member.isBitfield = false)) :
    suggestReorder layout (.aggregate a) = pure none := by
  cases hkind : a.kind <;> cases hbits : a.members.any Member.isBitfield <;>
    simp_all [suggestReorder]

/-- A fitted member that is no bitfield takes the extent of its type under the cap. -/
theorem Fitted.exists_natural (f : Fitted p cap) :
    ∃ natural, (f.member.type.measure Setting.pure p).extent = .ok natural ∧
      p.memberExtent f.member cap natural = .ok f.extent := by
  have hfits := f.fits
  unfold Member.fitting at hfits
  obtain ⟨natural, hnatural, hfits⟩ := Except.bind_eq_ok.mp hfits
  obtain ⟨extent, hextent, hfits⟩ := Except.bind_eq_ok.mp hfits
  refine ⟨natural, hnatural, ?_⟩
  split at hfits
  · split at hfits
    · cases hfits
    · rw [hextent, (Prod.mk.inj (Except.pure_eq_ok.mp hfits)).1]
  · obtain ⟨nested, -, hfits⟩ := Except.bind_eq_ok.mp hfits
    rw [hextent, (Prod.mk.inj (Except.pure_eq_ok.mp hfits)).1]

theorem Member.ne_bitfield {x : Member} (h : x.isBitfield = false) (base : Primitive)
    (width : Json) : x.type ≠ .bitfield base width := by
  intro hx
  simp [Member.isBitfield, hx] at h

theorem Fitted.isPowerOfTwo_alignment (hp : p.IsAligned) (hcap : ∀ c ∈ cap, isPowerOfTwo c = true)
    {f : Fitted p cap} (hf : f.member.isBitfield = false) :
    isPowerOfTwo f.extent.alignment = true := by
  obtain ⟨natural, hnatural, hextent⟩ := f.exists_natural
  apply Profile.isPowerOfTwo_memberExtent hextent hcap
  exact (aligned_invariant hp).of_extent (Member.ne_bitfield hf) hnatural

section Orders

variable {a : Aggregate} {r : LayoutResult} {fs gs : List (Fitted p cap)} {members : List Member}
  {alignment : Int}

/-- The layout of a struct whose members are placed. -/
theorem size_of_finish (hr : a.finish (placeAll fs) = .ok r) :
    ∃ alignment, a.alignmentFrom (placeAll fs).alignment = .ok alignment ∧
      r.size = roundUp (endAfter 0 fs) alignment ∧ r.members = (placeAll fs).members := by
  obtain ⟨alignment, halignment, rfl⟩ := Except.map_eq_ok.mp hr
  exact ⟨alignment, halignment, congrArg (roundUp · alignment) (cursor_pushAll .start fs), rfl⟩

/-- Every order of the members that keeps an open-ended array last lays out. -/
theorem layoutOf_of_perm (hkind : a.kind = .struct)
    (hbits : ∀ f ∈ fs, f.member.isBitfield = false) (hcap : a.packCap = .ok cap)
    (halignment : a.alignmentFrom (placeAll fs).alignment = .ok alignment) (hperm : gs.Perm fs)
    (hlast : OnlyLastFlexible (gs.map Fitted.member)) :
    ∃ r, layoutOf p (.aggregate { a with members := gs.map Fitted.member }) = .ok r ∧
      r.size = roundUp (endAfter 0 gs) alignment ∧ r.members = (placeAll gs).members := by
  have hbits' : ∀ x ∈ gs.map Fitted.member, x.isBitfield = false :=
    List.forall_mem_map.mpr fun f hf => hbits f (hperm.mem_iff.mp hf)
  rw [← alignment_placeAll_of_perm hperm] at halignment
  obtain ⟨r, hr⟩ : ∃ r, ({ a with members := gs.map Fitted.member } : Aggregate).finish
      (placeAll gs) = .ok r := ⟨_, Except.map_eq_ok.mpr ⟨alignment, halignment, rfl⟩⟩
  obtain ⟨alignment', halignment', hsize, hmembers⟩ := size_of_finish hr
  obtain rfl : alignment = alignment' := Except.ok.inj (halignment.symm.trans halignment')
  have hiff := layoutOf_eq_ok_iff (p := p) (a := { a with members := gs.map Fitted.member })
    (r := r) hkind hbits'
  exact ⟨r, hiff.mpr ⟨cap, hcap, hlast, gs, rfl, hr⟩, hsize, hmembers⟩

/-- Every order of the members that lays out is one of what they take. -/
theorem exists_perm_of_layoutOf (hkind : a.kind = .struct)
    (hbits : ∀ f ∈ fs, f.member.isBitfield = false) (hcap : a.packCap = .ok cap)
    (halignment : a.alignmentFrom (placeAll fs).alignment = .ok alignment)
    (hperm : members.Perm (fs.map Fitted.member))
    (hr : layoutOf p (.aggregate { a with members }) = .ok r) :
    ∃ gs : List (Fitted p cap), gs.Perm fs ∧ OnlyLastFlexible (gs.map Fitted.member) ∧
      r.size = roundUp (endAfter 0 gs) alignment := by
  have hbits' : ∀ x ∈ members, x.isBitfield = false := by
    intro x hx
    obtain ⟨f, hf, rfl⟩ := List.mem_map.mp (hperm.mem_iff.mp hx)
    exact hbits f hf
  have hiff := layoutOf_eq_ok_iff (p := p) (a := { a with members }) (r := r) hkind hbits'
  obtain ⟨cap', hcap', hlast, gs, hgs, hfinish⟩ := hiff.mp hr
  obtain rfl : cap = cap' := Except.ok.inj (hcap.symm.trans hcap')
  dsimp only at hlast hgs
  subst hgs
  have hperm' : gs.Perm fs := (List.map_perm_map_iff Fitted.member_injective).mp hperm
  obtain ⟨alignment', halignment', hsize, -⟩ := size_of_finish hfinish
  rw [alignment_placeAll_of_perm hperm'] at halignment'
  obtain rfl : alignment = alignment' := Except.ok.inj (halignment.symm.trans halignment')
  exact ⟨gs, hperm', hlast, hsize⟩

end Orders

/-! ## The suggestion -/

/-- The sizes that the orders of the members of an aggregate have. -/
def Aggregate.orderSizes (p : Profile) (a : Aggregate) : Set Int :=
  {n | ∃ members r, members.Perm a.members ∧
    layoutOf p (.aggregate { a with members }) = .ok r ∧ r.size = n}

/-- Whether the type of a placed member is an open-ended array. -/
def MemberLayout.isFlexible (m : MemberLayout) : Bool :=
  match m.type with
  | .flexibleArray _ => true
  | _ => false

/-- What a suggestion for an aggregate should be: an order of its members, with its layout, that
leaves no gap before a member but an open-ended array and takes no more room than any order. -/
structure Suggestion.IsBest (p : Profile) (a : Aggregate) (s : Suggestion) : Prop where
  perm : s.members.Perm a.members
  layout_eq : layoutOf p (.aggregate { a with members := s.members }) = .ok s.layout
  gapless : ∀ m ∈ s.layout.members, m.isFlexible = false → m.paddingBefore = 0
  least : IsLeast (a.orderSizes p) s.layout.size

/-- The suggested order leaves no gap before a member but an open-ended array. -/
theorem padding_placeAll_suggested {fs : List (Fitted p cap)} (h : Falling (movable fs))
    {m : MemberLayout} (hm : m ∈ (placeAll (suggested fs)).members)
    (hflexible : m.isFlexible = false) : m.paddingBefore = 0 := by
  obtain ⟨t, ht, hm⟩ := List.mem_flatMap.mp hm
  have hslots : (placeAll (suggested fs)).slots =
      ((StructState.start.pushAll (movable fs)).pushAll (trailing fs)).slots := by
    rw [placeAll, suggested, StructState.pushAll, List.foldl_append]
    rfl
  obtain ⟨f, -, index, offset, padding, rfl⟩ :=
    (exists_of_mem_slots ht).resolve_left List.not_mem_nil
  rcases List.mem_cons.mp hm with rfl | hm
  · rw [hslots] at ht
    rcases exists_of_mem_slots ht with ht | ⟨g, hg, i, o, n, hslot⟩
    · have hdvd : ∀ f ∈ movable fs, f.extent.alignment ∣ StructState.start.cursor :=
        fun f _ => Int.dvd_zero f.extent.alignment
      exact (padding_pushAll_of_dvd h.pairwise_dvd hdvd ht).resolve_left List.not_mem_nil
    · have hg := (mem_trailing.mp hg).2
      rw [hslot] at hflexible
      exact absurd (hflexible.symm.trans hg) Bool.false_ne_true
  · exact (valueSlot_promoted hm).2

/-- **The suggested order is the best one.** -/
theorem exists_isBest (hp : p.IsAligned) {a : Aggregate} {r : LayoutResult}
    (hkind : a.kind = .struct) (hbits : ∀ x ∈ a.members, x.isBitfield = false)
    (hr : layoutOf p (.aggregate a) = .ok r) (hkeys : (r.direct.map (·.key)).Nodup)
    (hsizes : ∀ m ∈ r.direct, m.alignment ∣ m.size) :
    ∃ s, suggestReorder (layoutOf p) (.aggregate a) = .ok (some s) ∧ s.IsBest p a ∧
      s.declaredSize = r.size := by
  obtain ⟨cap, hcap, hlast, fs, hfs, hfinish⟩ := (layoutOf_eq_ok_iff hkind hbits).mp hr
  obtain ⟨alignment, halignment, -, hmembers⟩ := size_of_finish hfinish
  rw [← hfs] at hbits hlast
  rw [List.forall_mem_map] at hbits
  have hpower : ∀ f ∈ fs, isPowerOfTwo f.extent.alignment = true := fun f hf =>
    f.isPowerOfTwo_alignment hp (isPowerOfTwo_packCap hcap) (hbits f hf)
  have hdvd : ∀ f ∈ fs, f.extent.alignment ∣ f.extent.size := by
    intro f hf
    obtain ⟨t, ht, hsize, htalignment⟩ := exists_slot_of_mem hf .start
    rw [← hsize, ← htalignment]
    apply hsizes
    rw [LayoutResult.direct, hmembers, direct_placeAll]
    exact List.mem_map_of_mem ht
  have htrailing := hlast.eq_append.2
  obtain ⟨best, hbest, hsize, hbestMembers⟩ := layoutOf_of_perm hkind hbits hcap halignment
    (suggested_perm fs) (onlyLastFlexible_suggested htrailing)
  refine ⟨⟨(suggested fs).map Fitted.member, best, r.size⟩, ?_, ⟨?_, hbest, ?_, ?_, ?_⟩, rfl⟩
  · have hany : a.members.any Member.isBitfield = false := by
      rw [← hfs, List.any_eq_false]
      simpa using hbits
    have horder : suggestedOrder r a.members = (suggested fs).map Fitted.member := by
      rw [← hfs]
      exact suggestedOrder_eq hkeys hfinish
    rw [suggestReorder_struct _ hkind hany, hr, Except.bind_eq_ok]
    refine ⟨r, rfl, ?_⟩
    rw [horder]
    exact Except.bind_eq_ok.mpr ⟨best, hbest, rfl⟩
  · exact hfs ▸ (suggested_perm fs).map Fitted.member
  · intro m hm
    rw [hbestMembers] at hm
    exact padding_placeAll_suggested (falling_movable hpower hdvd) hm
  · exact ⟨_, best, hfs ▸ (suggested_perm fs).map Fitted.member, hbest, rfl⟩
  · rintro n ⟨members, r', hperm, hr', rfl⟩
    obtain ⟨gs, hgs, hgsLast, hr'⟩ := exists_perm_of_layoutOf hkind hbits hcap halignment
      (hfs ▸ hperm) hr'
    rw [hr', hsize]
    exact Number.roundUp_mono (endAfter_suggested_le hpower hdvd htrailing hgs hgsLast) _

/-- The direct members of a struct whose members are ordinary. -/
theorem dvd_of_mem_direct (hp : p ∈ Profile.builtIn) {a : Aggregate} {r : LayoutResult}
    (hkind : a.kind = .struct) (hbits : ∀ x ∈ a.members, x.isBitfield = false)
    (hordinary : ∀ x ∈ a.members, x.isOrdinary = true) (hr : layoutOf p (.aggregate a) = .ok r)
    {m : MemberLayout} (hm : m ∈ r.direct) : m.alignment ∣ m.size := by
  obtain ⟨cap, hcap, -, fs, hfs, hfinish⟩ := (layoutOf_eq_ok_iff hkind hbits).mp hr
  obtain ⟨-, -, -, hmembers⟩ := size_of_finish hfinish
  rw [LayoutResult.direct, hmembers, direct_placeAll] at hm
  obtain ⟨t, ht, rfl⟩ := List.mem_map.mp hm
  obtain ⟨f, hf, index, offset, padding, rfl⟩ :=
    (exists_of_mem_slots ht).resolve_left List.not_mem_nil
  obtain ⟨natural, hnatural, hextent⟩ := f.exists_natural
  have hx : f.member.isOrdinary = true := hordinary _ (hfs ▸ List.mem_map_of_mem hf)
  exact Member.dvd_of_isOrdinary hp hx (isPowerOfTwo_packCap hcap) hnatural hextent

/-! ## By way of an engine -/

/-- What is seen of a suggestion. -/
def Suggestion.through (v : View) (s : Suggestion) : Suggestion :=
  { s with layout := s.layout.through v }

/-- A suggestion without the origins in its layout. -/
abbrev Suggestion.bare : Suggestion → Suggestion := through .bare

theorem directExtent?_through (v : View) (r : LayoutResult) (key : String) :
    (r.through v).directExtent? key = (r.directExtent? key).map (Extent.through v) := by
  have hfind : (fun m : MemberLayout => m.key == key && !m.promoted) ∘ MemberLayout.through v =
      fun m => m.key == key && !m.promoted := by
    funext m
    simp
  have hextent : (fun m : MemberLayout => Extent.mk m.size m.alignment m.sizeIsFlag) ∘
      MemberLayout.through v = Extent.through v ∘ fun m => ⟨m.size, m.alignment, m.sizeIsFlag⟩ := by
    funext m
    cases m
    rfl
  rw [LayoutResult.directExtent?, LayoutResult.through_members, List.find?_map, Option.map_map,
    hfind, hextent, LayoutResult.directExtent?, Option.map_map]

/-- The suggested order does not look at what a view changes. -/
theorem suggestedOrder_through (v : View) (r : LayoutResult) (members : List Member) :
    suggestedOrder (r.through v) members = suggestedOrder r members := by
  let seen (x : PlacedMember) : PlacedMember := ⟨x.member, x.extent.through v⟩
  have hplaced (index : Nat) : placedMembers (r.through v) index members =
      (placedMembers r index members).map seen := by
    induction members generalizing index with
    | nil => rfl
    | cons x xs ih =>
      rw [placedMembers, placedMembers, ih, directExtent?_through, List.map_cons]
      cases r.directExtent? (memberKey x index) <;> simp [seen, Extent.through]
  have harranged := arranged_map (f := seen) (fun _ => rfl) (fun _ _ => rfl)
    (placedMembers r 0 members)
  rw [suggestedOrder_eq_arranged, hplaced, harranged, List.map_map, suggestedOrder_eq_arranged]
  rfl

theorem map_member_placedMembers (r : LayoutResult) (index : Nat) (members : List Member) :
    (placedMembers r index members).map (·.member) = members := by
  induction members generalizing index with
  | nil => rfl
  | cons x members ih => simp only [placedMembers, List.map_cons, ih]

/-- The suggested order is one of the orders. -/
theorem suggestedOrder_perm (r : LayoutResult) (members : List Member) :
    (suggestedOrder r members).Perm members := by
  have hmembers := (arranged_perm (placedMembers r 0 members)).map PlacedMember.member
  rwa [map_member_placedMembers] at hmembers

theorem Aggregate.isIntegral_of_subset {a : Aggregate} {members : List Member}
    (h : a.isIntegral = true) (hsub : members ⊆ a.members) :
    ({ a with members } : Aggregate).isIntegral = true := by
  obtain ⟨kind, members', name, pack, attributes, origin⟩ := a
  simp only [isIntegral, Bool.and_eq_true, areIntegral_eq_all, List.all_eq_true] at h ⊢
  exact ⟨fun x hx => h.1 x (hsub hx), h.2⟩

/-- Two suggestions correspond when the layouts that they use do. -/
theorem Coupling.relates_suggestReorder {m n : Type → Type} [Monad m] [Monad n] {S : Setting m}
    {T : Setting n} {p q : Profile} {C : Comparison p q} {F : Aggregate → Aggregate → Prop}
    (L : Coupling S T C F) {f : TypeNode → m LayoutResult} {g : TypeNode → n LayoutResult}
    {D : TypeNode → Prop} (hlayout : ∀ node, D node → L.Relates C.Layouts (f node) (g node))
    (hD : ∀ (a : Aggregate) (members : List Member), members ⊆ a.members →
      D (.aggregate a) → D (.aggregate { a with members })) {node : TypeNode} (hnode : D node) :
    L.Relates
      (fun s s' => s'.map (Suggestion.through C.right) = s.map (Suggestion.through C.left))
      (suggestReorder f node) (suggestReorder g node) := by
  cases node with
  | primitive | array | flexibleArray | bitfield | incomplete | unknown => exact L.of_pure rfl
  | aggregate a =>
    by_cases hsorted : a.kind = .struct ∧ a.members.any Member.isBitfield = false
    · rw [suggestReorder_struct _ hsorted.1 hsorted.2, suggestReorder_struct _ hsorted.1 hsorted.2]
      refine L.bind (hlayout _ hnode) fun r r' hr => ?_
      have horder : suggestedOrder r' a.members = suggestedOrder r a.members := by
        rw [← suggestedOrder_through C.right r', show r'.through C.right = r.through C.left from hr,
          suggestedOrder_through]
      have hordered := hD a _ (suggestedOrder_perm r a.members).subset hnode
      dsimp only
      rw [horder]
      refine L.bind (hlayout _ hordered) fun best best' hbest => L.of_pure ?_
      have hsize : r'.size = r.size := congrArg Extent.size hr.extent_eq
      simp only [Option.map_some, Suggestion.through, show best'.through C.right = _ from hbest,
        hsize]
    · rw [suggestReorder_eq_none _ hsorted, suggestReorder_eq_none _ hsorted]
      exact L.of_pure rfl

/-- **A suggestion made by way of an engine** is the plain one, up to origins, whatever was asked of
the engine before. -/
theorem Engine.suggestReorder_eq (channels : Channels) {limit : Option Int}
    (hlimit : ∀ n ∈ limit, 0 ≤ n) {calls : List Call} (hcalls : ∀ c ∈ calls, c.isIntegral = true)
    {node : TypeNode} (hnode : node.isIntegral = true) :
    ((suggestReorder (layout p) node).run ((make channels limit).replay calls)).1.map
        (Option.map Suggestion.bare) =
      (suggestReorder (layoutOf p) node).map (Option.map Suggestion.bare) := by
  have hsubset (a : Aggregate) (members : List Member) (hsub : members ⊆ a.members)
      (ha : (TypeNode.aggregate a).isIntegral = true) :
      (TypeNode.aggregate { a with members }).isIntegral = true :=
    Aggregate.isIntegral_of_subset ha hsub
  have htrusted := trusted_lookup limit
  -- Both are compared with the plain suggestion of bare types.
  have hengine := (htrusted.coupling p fun _ h => h).relates_suggestReorder
    (f := fun node => layoutOf p node.bare)
    (fun node hnode => htrusted.layout (hereditary_lookup limit) (fun _ h => h)
      (.of_isIntegral hnode) (.of_isIntegral hnode)) hsubset hnode
  have hplain := (Coupling.equal (.bare p)).relates_suggestReorder
    (f := fun node => layoutOf p node.bare) (D := fun node => node.isIntegral = true)
    (fun node _ => Comparison.rel_layouts_bare.mpr (layoutOf_bare p node).symm) hsubset hnode
  have hanswer := (hengine _ ((invariant_make channels limit).replay hlimit hcalls)).2
  rw [answers_iff hlimit] at hanswer
  exact (Except.rel_eq_iff.mp hanswer).trans (Except.rel_eq_iff.mp hplain).symm

/-! ## Optimality -/

/-- **No order of the members takes less room than the suggested one**, where members with distinct
keys have sizes that are multiples of their alignments; ordinary members of the built-in profiles
have.  So the bytes that are saved separate the declared order from the best one, and an engine
makes the same suggestion whatever was asked of it before. -/
theorem suggestReorder_isBest (hp : p.IsAligned) {a : Aggregate} {r : LayoutResult}
    (hkind : a.kind = .struct) (hbits : ∀ x ∈ a.members, x.isBitfield = false)
    (hr : layoutOf p (.aggregate a) = .ok r) :
    ((r.direct.map (·.key)).Nodup → (∀ m ∈ r.direct, m.alignment ∣ m.size) →
      ∃ s, suggestReorder (layoutOf p) (.aggregate a) = .ok (some s) ∧ s.IsBest p a ∧
        (∀ least, IsLeast (a.orderSizes p) least → s.bytesSaved = r.size - least) ∧
        ∀ channels limit calls, (∀ n ∈ limit, 0 ≤ n) →
          (∀ c ∈ calls, Engine.Call.isIntegral c = true) →
          (TypeNode.aggregate a).isIntegral = true →
          ∃ s', ((suggestReorder (Engine.layout p) (.aggregate a)).run
              ((Engine.make channels limit).replay calls)).1 = .ok (some s') ∧
            s'.bare = s.bare) ∧
      (p ∈ Profile.builtIn → (∀ x ∈ a.members, x.isOrdinary = true) →
        ∀ m ∈ r.direct, m.alignment ∣ m.size) := by
  refine ⟨fun hkeys hsizes => ?_, fun hbuiltIn hordinary m hm => ?_⟩
  · obtain ⟨s, hs, hbest, hdeclared⟩ := exists_isBest hp hkind hbits hr hkeys hsizes
    refine ⟨s, hs, hbest, fun least hleast => ?_, fun channels limit calls hlimit hcalls ha => ?_⟩
    · have hsize : s.layout.size = least := hbest.least.unique hleast
      have hle : least ≤ r.size := by
        refine hleast.2 ⟨a.members, r, List.Perm.refl _, ?_, rfl⟩
        cases a
        exact hr
      rw [Suggestion.bytesSaved, Suggestion.optimizedSize, hdeclared, hsize]
      omega
    · have hengine := Engine.suggestReorder_eq (p := p) channels hlimit hcalls ha
      rw [hs] at hengine
      obtain ⟨o, ho, hbare⟩ := Except.map_eq_ok.mp hengine
      obtain ⟨s', rfl, hbare⟩ := Option.map_eq_some_iff.mp hbare
      exact ⟨s', ho, Option.some.inj hbare⟩
  · exact dvd_of_mem_direct hbuiltIn hkind hbits hordinary hr hm

/-- A message with a gap before its weight and an open-ended array at its end. -/
def message : Aggregate where
  kind := .struct
  members :=
    [⟨.primitive ⟨"char", none, none⟩, some "tag", .none⟩,
     ⟨.primitive ⟨"double", none, none⟩, some "weight", .none⟩,
     ⟨.array (.primitive ⟨"short", none, none⟩) [.int 3], some "code", .none⟩,
     ⟨.flexibleArray (.primitive ⟨"int", none, none⟩), some "rest", .none⟩]
  name := some "message"
  pack := none
  attributes := .none
  origin := .written ["message"]

/-- The weight of a message comes first in the best order, which takes no more than any order of
its members that lays out, and an engine that keeps one layout suggests it too. -/
theorem suggestReorder_isBest_message :
    ∃ s, suggestReorder (layoutOf .lp64) (.aggregate message) = .ok (some s) ∧
      s.IsBest .lp64 message ∧ s.bytesSaved = 24 - s.layout.size ∧
      ∃ s', ((suggestReorder (Engine.layout .lp64) (.aggregate message)).run
          ((Engine.make [] (some 1)).replay [.layout .ilp32 (.aggregate message)])).1 =
            .ok (some s') ∧ s'.bare = s.bare := by
  have hlaid : (layoutOf .lp64 (.aggregate message)).toOption.map
      (fun r => (r.size, r.direct.map (·.key))) = some (24, ["tag", "weight", "code", "rest"]) := by
    decide +kernel
  obtain ⟨r, hok, hr⟩ := Option.map_eq_some_iff.mp hlaid
  obtain ⟨hsize, hkeys⟩ := Prod.mk.inj hr
  obtain ⟨hbest, hordinary⟩ := suggestReorder_isBest (p := .lp64) (a := message) (r := r)
    (by decide) rfl (by decide) (Except.toOption_eq_some.mp hok)
  obtain ⟨s, hs, hbest, hsaved, hengine⟩ := hbest (by rw [hkeys]; decide)
    (hordinary (by decide) (by decide))
  exact ⟨s, hs, hbest, hsize ▸ hsaved _ hbest.least,
    hengine [] (some 1) _ (by decide) (by decide) (by decide)⟩

end RecordLayout
