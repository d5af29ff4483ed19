import RecordLayout.Profile.BuiltIn
import RecordLayout.Proofs.Layout.Progress

/-!
# Members that are appended

Members are placed one after another, so those that come later do not move those before them.  When
members are appended to an aggregate that lays out, and it still lays out, its layout goes on where
it used to end: the members so far are listed as before, the alignment becomes a multiple of what it
was, and the size does not become smaller.

That the size cannot shrink is not obvious.  A struct that ends closes the unit that its last
bitfield left open, whereas a struct that goes on may keep filling it.  What grows with every member
is not the cursor of the walk but the byte at which it would end (`StructState.close`), and that is
the quantity that the two structs are compared by (`Sequenced.GoesOnAs`).

## Main definitions

* `Sequenced.GoesOnAs` compares the storage of members with that of the same and more members;
* `LayoutResult.GoesOnAs` compares the two layouts.

## Main results

* `StructStep.goesOnAs`, `UnionStep.goesOnAs`: one more member;
* `Sequenced.goesOnAs_append`: any number of them;
* `layoutOf_append`: what is appended leaves the layout as it is.
-/

namespace RecordLayout

/-! ## Storage that goes on -/

/-- Storage of members that goes on as storage of more members. -/
structure Sequenced.GoesOnAs (s t : Sequenced) : Prop where
  slots : s.slots <+: t.slots
  endOffset : s.endOffset ≤ t.endOffset
  alignment : s.alignment ≤ t.alignment

namespace Sequenced.GoesOnAs

variable {s t u : Sequenced}

theorem refl (s : Sequenced) : s.GoesOnAs s :=
  ⟨List.prefix_refl _, Int.le_refl _, Int.le_refl _⟩

theorem trans (h : s.GoesOnAs t) (h' : t.GoesOnAs u) : s.GoesOnAs u where
  slots := h.slots.trans h'.slots
  endOffset := Int.le_trans h.endOffset h'.endOffset
  alignment := Int.le_trans h.alignment h'.alignment

/-- The members that are listed for a prefix of the slots are a prefix, too. -/
theorem members (h : s.GoesOnAs t) : s.members <+: t.members := by
  obtain ⟨slots, hslots⟩ := h.slots
  refine ⟨slots.flatMap Slot.members, ?_⟩
  rw [Sequenced.members, Sequenced.members, ← hslots, List.flatMap_append]

end Sequenced.GoesOnAs

section Steps

variable {p : Profile} {cap : Option Int} {x : Member}

theorem le_raisedBy (p : Profile) (x : Member) (place : Bitfield.Placement) (alignment : Int) :
    alignment ≤ raisedBy p x place alignment := by
  unfold raisedBy
  split
  · exact Int.le_max_left _ _
  · exact Int.le_refl _

/-- A member that is no bitfield ends at or after the byte at which the struct would have ended. -/
theorem le_end_of_value {natural extent : Extent} {nested : Option LayoutResult}
    (sized : SizedWell p x.type natural nested)
    (extent_eq : p.memberExtent x cap natural = .ok extent) (byte : Int) :
    byte ≤ Number.roundUp byte extent.alignment + extent.size := by
  have hround := Number.le_roundUp byte extent.alignment
  have hsize : extent.size = natural.size := by rw [Profile.memberExtent_eq_ok extent_eq]
  have hnonneg : 0 ≤ natural.size := sized.1
  omega

/-- **One more member of a struct** leaves those before it as they are. -/
theorem StructStep.goesOnAs {s t : StructState} (hcons : Bitfield.Consistent p s.cursor s.unit)
    (h : StructStep p cap (SizedWell p) x s t) : (s.close p).GoesOnAs (t.close p) := by
  cases h with
  | skipped type open_ field_eq placed_eq placement =>
    obtain ⟨hunit, hflush⟩ := Bitfield.unit_of_placement_eq_none placed_eq placement
    refine ⟨List.prefix_refl _, ?_, Int.le_refl _⟩
    simp only [StructState.close, hunit]
    exact hflush
  | bitfield type open_ field_eq placed_eq placement =>
    have adv := Bitfield.advances_of_place placed_eq placement hcons
    exact ⟨List.prefix_append _ _, adv.flush_le, le_raisedBy _ _ _ _⟩
  | flexible type open_ named sized empty extent_eq offset_eq =>
    refine ⟨List.prefix_append _ _, ?_, Int.le_max_left _ _⟩
    simp only [StructState.close, offset_eq]
    exact Number.le_roundUp _ _
  | value type open_ anonymous sized extent_eq offset_eq =>
    refine ⟨List.prefix_append _ _, ?_, Int.le_max_left _ _⟩
    simp only [StructState.close, offset_eq]
    exact le_end_of_value sized extent_eq _

/-- **One more member of a union** leaves those before it as they are. -/
theorem UnionStep.goesOnAs {s t : UnionState} (h : UnionStep p cap (SizedWell p) x s t) :
    s.close.GoesOnAs t.close := by
  cases h with
  | skipped type field_eq placed_eq placement => exact .refl _
  | bitfield type field_eq placed_eq placement =>
    exact ⟨List.prefix_append _ _, Int.le_max_left _ _, le_raisedBy _ _ _ _⟩
  | value type anonymous sized extent_eq =>
    exact ⟨List.prefix_append _ _, Int.le_max_left _ _, Int.le_max_left _ _⟩

/-- More members of a struct, which may go on in a unit that is open. -/
theorem StructState.goesOnAs_of_walk {pre members : List Member} {s t : StructState}
    (hs : s.Sound p pre) (h : Walk (StructStep p cap (SizedWell p)) members s t) :
    (s.close p).GoesOnAs (t.close p) := by
  have hend : t.Sound p (pre ++ members) ∧ (s.close p).GoesOnAs (t.close p) := by
    apply h.snoc_induction (motive := fun ms u => u.Sound p (pre ++ ms) ∧
      (s.close p).GoesOnAs (u.close p))
    · rw [List.append_nil]
      exact ⟨hs, .refl _⟩
    · intro ms y u v _ hu hstep
      rw [← List.append_assoc]
      exact ⟨hstep.sound hu.1, hu.2.trans (hstep.goesOnAs hu.1.consistent)⟩
  exact hend.2

/-- More members of a union. -/
theorem UnionState.goesOnAs_of_walk {members : List Member} {s t : UnionState}
    (h : Walk (UnionStep p cap (SizedWell p)) members s t) : s.close.GoesOnAs t.close := by
  apply h.snoc_induction (motive := fun _ u => s.close.GoesOnAs u.close)
  · exact .refl _
  · intro ms y u v _ hu hstep
    exact hu.trans hstep.goesOnAs

end Steps

/-! ## Aggregates -/

section Aggregates

variable {p : Profile} {cap : Option Int} {kind : AggregateKind} {ms ns : List Member}
  {s t : Sequenced}

/-- **Members that are appended** go on from the storage of those before them. -/
theorem Sequenced.goesOnAs_append
    (hs : sequenceMembers Setting.pure p cap kind (measureMembers Setting.pure p ms) = .ok s)
    (ht : sequenceMembers Setting.pure p cap kind (measureMembers Setting.pure p (ms ++ ns)) =
      .ok t) : s.GoesOnAs t := by
  rw [measureMembers_eq_map, List.map_append, ← measureMembers_eq_map,
    ← measureMembers_eq_map] at ht
  cases kind with
  | struct =>
    simp only [sequenceMembers, sequenceStruct_eq] at hs ht
    obtain ⟨u, hu, rfl⟩ := Except.map_eq_ok.mp hs
    obtain ⟨v, hv, rfl⟩ := Except.map_eq_ok.mp ht
    -- The longer walk comes through the state in which the shorter one ends.
    rw [List.foldlM_append, hu] at hv
    have hsound := StructState.sound_of_walk ((wellLaid_invariant p).walk_struct hu)
    exact StructState.goesOnAs_of_walk hsound ((wellLaid_invariant p).walk_struct hv)
  | union =>
    simp only [sequenceMembers, sequenceUnion_eq] at hs ht
    obtain ⟨u, hu, rfl⟩ := Except.map_eq_ok.mp hs
    obtain ⟨v, hv, rfl⟩ := Except.map_eq_ok.mp ht
    rw [List.foldlM_append, hu] at hv
    exact UnionState.goesOnAs_of_walk ((wellLaid_invariant p).walk_union hv)

end Aggregates

/-- The same aggregate with more members after its own. -/
def Aggregate.appended (a : Aggregate) (ns : List Member) : Aggregate :=
  { a with members := a.members ++ ns }

/-- A layout that goes on as another one: what it lists comes first there, in the same places. -/
structure LayoutResult.GoesOnAs (r t : LayoutResult) : Prop where
  members : r.members <+: t.members
  alignment : r.alignment ∣ t.alignment
  size : r.size ≤ t.size

/-- An alignment that an aggregate requests raises a greater alignment to a greater one. -/
theorem Aggregate.alignmentFrom_mono {a : Aggregate} {m n m' n' : Int} (h : m ≤ n)
    (hm : a.alignmentFrom m = .ok m') (hn : a.alignmentFrom n = .ok n') : m' ≤ n' := by
  unfold alignmentFrom at hm hn
  cases hr : a.attributes.requested? with
  | none =>
    rw [hr] at hm hn
    cases hm
    cases hn
    exact h
  | some requested =>
    rw [hr] at hm hn
    obtain ⟨-, -, rfl⟩ := Except.map_eq_ok.mp hm
    obtain ⟨-, -, rfl⟩ := Except.map_eq_ok.mp hn
    omega

/-- The layout of an aggregate goes on when members are appended. -/
theorem goesOnAs_of_layoutOf {p : Profile} (hp : p.IsAligned) {a : Aggregate} {ns : List Member}
    {r t : LayoutResult} (hr : layoutOf p (.aggregate a) = .ok r)
    (ht : layoutOf p (.aggregate (a.appended ns)) = .ok t) : r.GoesOnAs t := by
  have hpower := isPowerOfTwo_of_layoutOf hp hr
  have hpower' := isPowerOfTwo_of_layoutOf hp ht
  rw [Aggregate.layoutOf_eq, Failure.within_eq_ok] at hr ht
  obtain ⟨cap, hcap, hr⟩ := Except.bind_eq_ok.mp hr
  obtain ⟨cap', hcap', ht⟩ := Except.bind_eq_ok.mp ht
  obtain rfl : cap = cap' := Except.ok.inj (hcap.symm.trans hcap')
  obtain ⟨s, hs, hr⟩ := Except.bind_eq_ok.mp hr
  obtain ⟨s', hs', ht⟩ := Except.bind_eq_ok.mp ht
  have hgoes := Sequenced.goesOnAs_append hs hs'
  obtain ⟨alignment, halignment, rfl⟩ := Except.map_eq_ok.mp hr
  obtain ⟨alignment', halignment', rfl⟩ := Except.map_eq_ok.mp ht
  have hle : alignment ≤ alignment' :=
    Aggregate.alignmentFrom_mono hgoes.alignment halignment halignment'
  have hdvd : alignment ∣ alignment' := Number.dvd_of_le hpower hpower' hle
  refine ⟨hgoes.members, hdvd, ?_⟩
  exact Number.roundUp_le_roundUp hgoes.endOffset hdvd (Number.pos_of_isPowerOfTwo hpower')

/-- **Appending members disturbs nothing** that is there: those so far are listed as before, the
alignment is a multiple of what it was, and the size is no less.  The same holds of what engines
answer, whatever they were asked before. -/
theorem layoutOf_append {p : Profile} (hp : p.IsAligned) (a : Aggregate) (ns : List Member) :
    (∀ r t, layoutOf p (.aggregate a) = .ok r →
        layoutOf p (.aggregate (a.appended ns)) = .ok t → r.GoesOnAs t) ∧
      ∀ r t, Engine.MayAnswer p a r → Engine.MayAnswer p (a.appended ns) t →
        r.canonical.GoesOnAs t.canonical := by
  refine ⟨fun r t hr ht => goesOnAs_of_layoutOf hp hr ht, fun r t hr ht => ?_⟩
  have hcanonical : (a.appended ns).canonical = a.canonical.appended (ns.map Member.canonical) := by
    simp only [Aggregate.appended, Aggregate.canonical_with_members, List.map_append,
      Aggregate.canonical_members]
  exact goesOnAs_of_layoutOf hp hr.canonical (hcanonical ▸ ht.canonical)

/-- A state of which the last bitfield leaves 25 bits of its unit free. -/
def state : Aggregate where
  kind := .struct
  members :=
    [⟨.primitive ⟨"char", some (.int 1), none⟩, some "level", .none⟩,
     ⟨.bitfield ⟨"int", some (.int 4), none⟩ (.int 7), some "mode", .none⟩]
  name := some "state"
  pack := none
  attributes := .none
  origin := .written ["state"]

/-- A bitfield of the same type and a number of eight bytes go on in the unit and after it. -/
def stateTail : List Member :=
  [⟨.bitfield ⟨"int", some (.int 4), none⟩ (.int 20), some "count", .none⟩,
   ⟨.primitive ⟨"long", some (.int 8), none⟩, some "stamp", .none⟩]

/-- In unit packing a state of 8 bytes goes on as one of 16 bytes, as laid out plainly and as an
engine answers for it. -/
theorem layoutOf_append_state :
    ∃ r t, layoutOf .lp64 (.aggregate state) = .ok r ∧
      layoutOf .lp64 (.aggregate (state.appended stateTail)) = .ok t ∧ r.size = 8 ∧ t.size = 16 ∧
      r.GoesOnAs t ∧
      ∃ r' t', Engine.MayAnswer .lp64 state r' ∧
        Engine.MayAnswer .lp64 (state.appended stateTail) t' ∧
        r'.canonical.GoesOnAs t'.canonical := by
  have hsize : (layoutOf .lp64 (.aggregate state)).toOption.map (·.size) = some 8 := by
    decide +kernel
  have hsize' : (layoutOf .lp64 (.aggregate (state.appended stateTail))).toOption.map (·.size) =
      some 16 := by
    decide +kernel
  obtain ⟨r, hr, hrsize⟩ := Option.map_eq_some_iff.mp hsize
  obtain ⟨t, ht, htsize⟩ := Option.map_eq_some_iff.mp hsize'
  rw [Except.toOption_eq_some] at hr ht
  obtain ⟨hplain, hengine⟩ := layoutOf_append (p := .lp64) (by decide) state stateTail
  obtain ⟨r', hr', -⟩ := Engine.exists_mayAnswer hr
  obtain ⟨t', ht', -⟩ := Engine.exists_mayAnswer ht
  exact ⟨r, t, hr, ht, hrsize, htsize, hplain r t hr ht, r', t', hr', ht', hengine r' t' hr' ht'⟩

end RecordLayout
