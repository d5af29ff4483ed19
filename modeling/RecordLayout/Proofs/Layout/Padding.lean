import Mathlib.Algebra.Ring.Int.Defs
import Mathlib.Order.Interval.Finset.Nat
import RecordLayout.Profile.BuiltIn
import RecordLayout.Proofs.Layout.Append
import RecordLayout.Proofs.Layout.Gaps
import RecordLayout.Proofs.Layout.Least

/-!
# Where the padding of a struct goes

A byte of a struct is free when it lies in the storage of none of its direct members.  A layout
records padding before the members that it lists and at the end.  That is not all that is free: a
bitfield without a name takes storage and one of width zero may align the next member, and either
may skip bytes, but a layout lists neither of them and so records nothing for them.  The free bytes
are those recorded and those skipped in this way (`layoutOf_padding`), so the recorded padding is
exact when every bitfield is listed, and never too great.

The invariant of the walk is that no byte is free from `Bitfield.takenFrom` up to the byte at which
the struct would end.  Storage that is shared with earlier bitfields therefore frees no byte and
takes none twice, and what a member adds to the free bytes is the gap in front of it.

## Main definitions

* `Slot.Covers` says which bytes a slot takes, `freeBytes` has those that no slot takes;
* `Member.unrecorded` is what a member skips without being listed, and `unrecordedPadding` the sum
  over the members of a struct;
* `StructState.Accounted` is the invariant of the walk;
* `Aggregate.AccountsForPadding` says that no free byte of a layout is missing in the account.

## Main results

* `card_freeBytes_push`, `card_freeBytes_skip`: what a slot and a skip add to the free bytes;
* `StructStep.accounted`: one member;
* `layoutOf_padding`: all free bytes are accounted for, in what engines answer, too.
-/

namespace RecordLayout

/-! ## Free bytes -/

/-- A byte lies in the storage of a slot. -/
def Slot.Covers (t : Slot) (b : Int) : Prop := t.placed.byteOffset ≤ b ∧ b < t.placed.endOffset

instance (t : Slot) (b : Int) : Decidable (t.Covers b) :=
  inferInstanceAs (Decidable (_ ∧ _))

/-- The bytes before `stop` that lie in the storage of no slot. -/
def freeBytes (slots : List Slot) (stop : Int) : Finset Nat :=
  (Finset.range stop.toNat).filter fun b => ∀ t ∈ slots, ¬ t.Covers b

section FreeBytes

variable {slots slots' : List Slot} {slot : Slot} {b : Nat} {stop stop' : Int}

theorem mem_freeBytes :
    b ∈ freeBytes slots stop ↔ b < stop ∧ ∀ t ∈ slots, ¬ t.Covers b := by
  rw [freeBytes, Finset.mem_filter, Finset.mem_range, Int.lt_toNat]

/-- Free bytes that are those of before and a gap after them. -/
theorem card_freeBytes_gap {gapEnd : Int} (hstop : 0 ≤ stop)
    (h : ∀ b, b ∈ freeBytes slots' stop' ↔
      b ∈ freeBytes slots stop ∨ stop ≤ b ∧ b < gapEnd) :
    ((freeBytes slots' stop').card : Int) =
      (freeBytes slots stop).card + max 0 (gapEnd - stop) := by
  have hunion : freeBytes slots' stop' =
      freeBytes slots stop ∪ Finset.Ico stop.toNat gapEnd.toNat := by
    ext b
    rw [Finset.mem_union, Finset.mem_Ico, h b, Int.toNat_le, Int.lt_toNat]
  have hdisjoint : Disjoint (freeBytes slots stop) (Finset.Ico stop.toNat gapEnd.toNat) := by
    rw [Finset.disjoint_left]
    intro b hb hgap
    rw [mem_freeBytes] at hb
    rw [Finset.mem_Ico] at hgap
    omega
  rw [hunion, Finset.card_union_of_disjoint hdisjoint, Nat.card_Ico]
  omega

/-- **Bytes that are skipped** are free. -/
theorem card_freeBytes_skip (hstop : 0 ≤ stop) (hbefore : ∀ t ∈ slots, t.placed.endOffset ≤ stop)
    (hle : stop ≤ stop') :
    ((freeBytes slots stop').card : Int) = (freeBytes slots stop).card + (stop' - stop) := by
  have hgap : stop' - stop = max 0 (stop' - stop) := by omega
  rw [hgap]
  apply card_freeBytes_gap hstop
  intro b
  rw [mem_freeBytes, mem_freeBytes]
  constructor
  · rintro ⟨hb, hfree⟩
    by_cases hlt : b < stop
    · exact .inl ⟨hlt, hfree⟩
    · exact .inr ⟨Int.not_lt.mp hlt, hb⟩
  · rintro (⟨hb, hfree⟩ | hb)
    · exact ⟨Int.lt_of_lt_of_le hb hle, hfree⟩
    · refine ⟨hb.2, ?_⟩
      intro t ht hcovers
      have hend := hbefore t ht
      exact absurd hcovers.2 (by omega)

/-- **A slot adds the gap in front of it** to the free bytes, when what it shares with the slots
before it is taken. -/
theorem card_freeBytes_push (hstop : 0 ≤ stop) (hbefore : ∀ t ∈ slots, t.placed.endOffset ≤ stop)
    (hsize : slot.placed.byteOffset ≤ slot.placed.endOffset)
    (hend : stop ≤ slot.placed.endOffset)
    (htaken : ∀ b, 0 ≤ b → slot.placed.byteOffset ≤ b → b < stop → ∃ t ∈ slots, t.Covers b) :
    ((freeBytes (slots ++ [slot]) slot.placed.endOffset).card : Int) =
      (freeBytes slots stop).card + max 0 (slot.placed.byteOffset - stop) := by
  apply card_freeBytes_gap hstop
  intro b
  rw [mem_freeBytes, mem_freeBytes, List.forall_mem_append, List.forall_mem_singleton]
  constructor
  · rintro ⟨hb, hfree, hslot⟩
    by_cases hlt : b < stop
    · exact .inl ⟨hlt, hfree⟩
    · -- The slot does not cover the byte and ends after it, so it begins after it.
      refine .inr ⟨Int.not_lt.mp hlt, ?_⟩
      by_contra hle
      exact hslot ⟨Int.not_lt.mp hle, hb⟩
  · rintro (⟨hb, hfree⟩ | hb)
    · refine ⟨Int.lt_of_lt_of_le hb hend, hfree, ?_⟩
      intro hcovers
      obtain ⟨t, ht, hcovered⟩ := htaken b (Int.natCast_nonneg b) hcovers.1 hb
      exact hfree t ht hcovered
    · refine ⟨Int.lt_of_lt_of_le hb.2 hsize, ?_, ?_⟩
      · intro t ht hcovers
        have hend := hbefore t ht
        exact absurd hcovers.2 (by omega)
      · intro hcovers
        exact absurd hcovers.1 (by omega)

end FreeBytes

/-! ## Padding that is not recorded -/

/-- The bytes that a member skips and a layout does not record: those in front of the storage of a
bitfield without a name, and those that a bitfield of width zero skips to align the next member. -/
def Member.unrecorded (p : Profile) (cap : Option Int) (s : StructState) (x : Member) :
    Except Failure Int :=
  match x.type with
  | .bitfield base width => do
    let field ← bitfieldOf p x cap base width
    let placed ← Bitfield.place p field s.cursor s.unit
    match placed.placement with
    | none => return placed.cursor - (Bitfield.flush p s.cursor s.unit).cursor
    | some place => return if x.name.isSome then 0 else place.paddingBefore
  | _ => return 0

/-- The bytes that the members of a struct skip without being recorded, from a state on. -/
def unrecordedPadding (p : Profile) (cap : Option Int) :
    StructState → List Member → Except Failure Int
  | _, [] => .ok 0
  | s, x :: xs => do
    let skipped ← x.unrecorded p cap s
    let t ← placeInStruct Setting.pure p cap s (x.measured Setting.pure p)
    let rest ← unrecordedPadding p cap t xs
    return skipped + rest

/-- The padding that a layout records before the members that it lists. -/
def recordedPadding (slots : List Slot) : Int :=
  ((slots.filter Slot.listed).map fun t => t.placed.paddingBefore).sum

theorem recordedPadding_append (slots : List Slot) (t : Slot) :
    recordedPadding (slots ++ [t]) =
      recordedPadding slots + if t.listed then t.placed.paddingBefore else 0 := by
  unfold recordedPadding
  cases h : t.listed <;> simp [List.filter_append, h]

theorem Member.unrecorded_value {p : Profile} {cap : Option Int} {s : StructState} {x : Member}
    (hx : ∀ base width, x.type ≠ .bitfield base width) : x.unrecorded p cap s = .ok 0 := by
  unfold unrecorded
  split
  · rename_i base width htype
    exact absurd htype (hx base width)
  · rfl

/-! ## The walk -/

/-- The free bytes of a struct whose members so far have skipped `skipped` bytes without being
recorded, and no byte of which is free from `takenFrom` on. -/
structure StructState.Accounted (p : Profile) (skipped : Int) (s : StructState) : Prop where
  taken : ∀ b, 0 ≤ b → Bitfield.takenFrom p s.cursor s.unit ≤ b → b < (s.close p).endOffset →
    ∃ t ∈ s.slots, t.Covers b
  free : ((freeBytes s.slots (s.close p).endOffset).card : Int) =
    recordedPadding s.slots + skipped

theorem Bitfield.takenFrom_none (p : Profile) (cursor : Int) :
    takenFrom p cursor none = cursor := by
  unfold takenFrom
  cases p.packing with
  | bits => exact Int.mul_ediv_cancel cursor (by decide)
  | unit => rfl

theorem Bitfield.takenFrom_le_flush {p : Profile} {cursor : Int} {unit : Option OpenUnit}
    (hcons : Consistent p cursor unit) :
    takenFrom p cursor unit ≤ (flush p cursor unit).cursor := by
  unfold takenFrom
  cases hp : p.packing with
  | bits =>
    have hrun := running_le_flush hcons
    dsimp only
    omega
  | unit => exact sharedFrom_le_flush hp hcons

section Walks

variable {p : Profile} {cap : Option Int} {pre : List Member} {x : Member} {s t : StructState}
  {skipped : Int}

theorem StructState.Sound.endOffset_nonneg (h : s.Sound p pre) : 0 ≤ (s.close p).endOffset :=
  Int.le_trans h.cursor_nonneg (Bitfield.le_cursor_flush p s.cursor s.unit)

theorem StructState.accounted_start : StructState.start.Accounted p 0 where
  taken := by
    intro b hb _ hlt
    have hend : (StructState.start.close p).endOffset = 0 := rfl
    rw [hend] at hlt
    exact absurd hlt (Int.not_lt.mpr hb)
  free := rfl

/-- A slot that reports the gap in front of it may follow. -/
theorem StructState.Accounted.push (h : s.Accounted p skipped) (hs : s.Sound p pre) (slot : Slot)
    (hslots : t.slots = s.slots ++ [slot])
    (hend : (t.close p).endOffset = slot.placed.endOffset)
    (hsize : slot.placed.byteOffset ≤ slot.placed.endOffset)
    (hle : (s.close p).endOffset ≤ slot.placed.endOffset)
    (hstart : Bitfield.takenFrom p s.cursor s.unit ≤ slot.placed.byteOffset)
    (hpadding : slot.placed.paddingBefore =
      max 0 (slot.placed.byteOffset - (s.close p).endOffset))
    (htaken : slot.placed.byteOffset ≤ Bitfield.takenFrom p t.cursor t.unit) :
    t.Accounted p (skipped + if slot.listed then 0 else slot.placed.paddingBefore) where
  taken := by
    intro b hb hfrom hlt
    refine ⟨slot, ?_, Int.le_trans htaken hfrom, hend ▸ hlt⟩
    rw [hslots]
    exact List.mem_append_right _ (List.mem_singleton.mpr rfl)
  free := by
    have hpush := card_freeBytes_push hs.endOffset_nonneg (fun o ho => (hs.settled o ho).flushed)
      hsize hle fun b hb hle hlt => h.taken b hb (Int.le_trans hstart hle) hlt
    rw [hslots, hend, hpush, h.free, recordedPadding_append, ← hpadding]
    cases slot.listed with
    | true =>
      simp only [if_true]
      omega
    | false =>
      simp only [Bool.false_eq_true, if_false]
      omega

/-- A member that is no bitfield records the gap in front of it. -/
theorem StructState.Accounted.push_value {natural extent : Extent} {nested : Option LayoutResult}
    {offset : Int} (h : s.Accounted p skipped) (hs : s.Sound p pre)
    (hsized : SizedWell p x.type natural nested)
    (hextent : p.memberExtent x cap natural = .ok extent)
    (hoffset : offset = Number.roundUp (s.close p).endOffset extent.alignment)
    (hslots : t.slots = s.slots ++
      [valueSlot x s.count offset (offset - (s.close p).endOffset) extent nested])
    (hcursor : t.cursor = offset + extent.size) (hunit : t.unit = none) :
    t.Accounted p skipped := by
  have hround : (s.close p).endOffset ≤ offset := hoffset ▸ Number.le_roundUp _ _
  have hnatural : 0 ≤ natural.size := hsized.1
  have hsize : extent.size = natural.size := by rw [Profile.memberExtent_eq_ok hextent]
  have hfrom := Bitfield.takenFrom_le_flush hs.consistent
  have hpush := h.push hs _ hslots ?hend ?hsize ?hle (Int.le_trans hfrom hround) ?hpadding ?htaken
  case hend =>
    simp only [StructState.close, hcursor, hunit]
    rfl
  case hsize =>
    simp only [valueSlot, MemberLayout.endOffset]
    omega
  case hle =>
    simp only [valueSlot, MemberLayout.endOffset]
    omega
  case hpadding =>
    simp only [valueSlot]
    omega
  case htaken =>
    rw [hunit, Bitfield.takenFrom_none, hcursor]
    simp only [valueSlot]
    omega
  simpa [valueSlot] using hpush

/-- **One member accounts for the bytes that it skips**: it records them, or it is not reported. -/
theorem StructStep.accounted (h : s.Accounted p skipped) (hs : s.Sound p pre)
    (hstep : StructStep p cap (SizedWell p) x s t) :
    ∃ n, x.unrecorded p cap s = .ok n ∧ 0 ≤ n ∧ (x.isReported = true → n = 0) ∧
      t.Accounted p (skipped + n) := by
  cases hstep with
  | @skipped base width field placed type open_ field_eq placed_eq placement =>
    obtain ⟨hunit, hflush⟩ := Bitfield.unit_of_placement_eq_none placed_eq placement
    have hreported := isReported_bitfield type field_eq placed_eq
    rw [placement, Option.isSome_none, Bool.and_false] at hreported
    refine ⟨placed.cursor - (s.close p).endOffset, ?_, ?_, ?_, ?_, ?_⟩
    · simp only [Member.unrecorded, type, field_eq, Except.bind_eq_ok]
      exact ⟨field, rfl, placed, placed_eq, by rw [placement]; rfl⟩
    · exact Int.sub_nonneg_of_le hflush
    · intro htrue
      rw [hreported] at htrue
      cases htrue
    · -- The cursor has moved to the end, so there is no byte between the two.
      intro b _ hfrom hlt
      rw [hunit, Bitfield.takenFrom_none] at hfrom
      simp only [StructState.close, hunit] at hlt
      exact absurd hlt (Int.not_lt.mpr hfrom)
    · have hskip := card_freeBytes_skip hs.endOffset_nonneg
        (fun o ho => (hs.settled o ho).flushed) hflush
      simp only [StructState.close, hunit]
      rw [Bitfield.flush, hskip, h.free]
      simp only [StructState.close]
      omega
  | @bitfield base width field placed place type open_ field_eq placed_eq placement =>
    have adv := Bitfield.advances_of_place placed_eq placement hs.consistent
    have hfills := Bitfield.fills_of_place placed_eq placement hs.consistent
    have hreported := isReported_bitfield type field_eq placed_eq
    rw [placement, Option.isSome_some, Bool.and_true] at hreported
    have hwidth := adv.width_pos
    have hbits := adv.bits
    refine ⟨if x.name.isSome then 0 else place.paddingBefore, ?_, ?_, ?_, ?_⟩
    · simp only [Member.unrecorded, type, field_eq, Except.bind_eq_ok]
      exact ⟨field, rfl, placed, placed_eq, by rw [placement]; rfl⟩
    · rw [hfills.padding]
      split
      · exact Int.le_refl 0
      · exact Int.le_max_left _ _
    · intro htrue
      rw [hreported] at htrue
      rw [if_pos htrue]
    · refine h.push hs (bitfieldSlot x place) rfl ?hend ?hsize ?hle ?hstart ?hpadding ?htaken
      case hend => exact hfills.stop
      case hsize =>
        simp only [bitfieldSlot, MemberLayout.endOffset]
        omega
      case hle => exact Int.le_trans adv.flush_le (Int.le_of_eq hfills.stop)
      case hstart => exact hfills.start
      case hpadding => exact hfills.padding
      case htaken => exact hfills.taken
  | @flexible element name natural extent offset type open_ named sized empty extent_eq offset_eq =>
    have hsize : extent.size = 0 := by rw [Profile.memberExtent_eq_ok extent_eq, empty]
    refine ⟨0, Member.unrecorded_value (by simp [type]), Int.le_refl 0, fun _ => rfl, ?_⟩
    rw [Int.add_zero]
    refine h.push_value hs sized extent_eq offset_eq rfl ?_ rfl
    rw [hsize, Int.add_zero]
  | @value natural extent nested offset type open_ anonymous sized extent_eq offset_eq =>
    refine ⟨0, Member.unrecorded_value (ne_bitfield type), Int.le_refl 0, fun _ => rfl, ?_⟩
    rw [Int.add_zero]
    exact h.push_value hs sized extent_eq offset_eq rfl rfl rfl

/-- **All members of a struct** account for the bytes that they skip. -/
theorem accounted_of_foldlM {members : List Member} (h : s.Accounted p skipped)
    (hs : s.Sound p pre)
    (hfold : (measureMembers Setting.pure p members).foldlM (placeInStruct Setting.pure p cap) s =
      .ok t) :
    ∃ n, unrecordedPadding p cap s members = .ok n ∧ 0 ≤ n ∧
      ((∀ x ∈ members, x.isReported = true) → n = 0) ∧ t.Accounted p (skipped + n) ∧
      t.Sound p (pre ++ members) := by
  induction members generalizing s pre skipped with
  | nil =>
    obtain rfl := Except.pure_eq_ok.mp hfold
    refine ⟨0, rfl, Int.le_refl 0, fun _ => rfl, ?_, ?_⟩
    · rwa [Int.add_zero]
    · rwa [List.append_nil]
  | cons x xs ih =>
    rw [measureMembers, List.foldlM_cons] at hfold
    obtain ⟨u, hu, hfold⟩ := Except.bind_eq_ok.mp hfold
    have hstep := (wellLaid_invariant p).step_struct hu
    obtain ⟨m, hm, hm_nonneg, hm_zero, hnext⟩ := hstep.accounted h hs
    obtain ⟨n, hn, hn_nonneg, hn_zero, hrest, hsound⟩ := ih hnext (hstep.sound hs) hfold
    refine ⟨m + n, ?_, Int.add_nonneg hm_nonneg hn_nonneg, ?_, ?_, ?_⟩
    · simp only [unrecordedPadding, hm, hu, Except.bind_eq_ok]
      exact ⟨m, rfl, u, rfl, n, hn, rfl⟩
    · intro hreported
      rw [List.forall_mem_cons] at hreported
      rw [hm_zero hreported.1, hn_zero hreported.2, Int.add_zero]
    · rwa [← Int.add_assoc]
    · rwa [List.append_assoc] at hsound

end Walks

/-! ## Structs -/

/-- All free bytes of a struct with the layout `r` are accounted for: each of them is recorded as
padding, or was skipped for a bitfield that the layout does not list.  If it lists every bitfield,
the recorded padding is exact. -/
def Aggregate.AccountsForPadding (p : Profile) (a : Aggregate) (r : LayoutResult) : Prop :=
  ∃ cap s skipped, a.packCap = .ok cap ∧
    sequenceStruct Setting.pure p cap (measureMembers Setting.pure p a.members) = .ok s ∧
    a.finish s = .ok r ∧ unrecordedPadding p cap .start a.members = .ok skipped ∧ 0 ≤ skipped ∧
    ((freeBytes s.slots r.size).card : Int) = r.paddingBytes + skipped ∧
    ((∀ x ∈ a.members, x.isReported = true) → r.paddingBytes = (freeBytes s.slots r.size).card)

/-- The free bytes of the members so far, and those of the tail. -/
theorem Aggregate.accountsForPadding_of_layoutOf {p : Profile} {a : Aggregate} {r : LayoutResult}
    (hkind : a.kind = .struct) (h : layoutOf p (.aggregate a) = .ok r) :
    a.AccountsForPadding p r := by
  obtain ⟨cap, s, hcap, hs, hr⟩ := Aggregate.layoutOf_struct_eq_ok hkind h
  have hfold := hs
  rw [sequenceStruct_eq] at hfold
  obtain ⟨t, ht, rfl⟩ := Except.map_eq_ok.mp hfold
  obtain ⟨skipped, hskipped, hnonneg, hzero, haccounted, hsound⟩ :=
    accounted_of_foldlM (p := p) StructState.accounted_start StructState.sound_start ht
  rw [Int.zero_add] at haccounted
  obtain ⟨alignment, -, hr'⟩ := Except.map_eq_ok.mp hr
  have hround := Number.le_roundUp (t.close p).endOffset alignment
  have hfree := card_freeBytes_skip hsound.endOffset_nonneg
    (fun o ho => (hsound.settled o ho).flushed) hround
  have hpadding : r.paddingBytes = recordedPadding t.slots +
      (Number.roundUp (t.close p).endOffset alignment - (t.close p).endOffset) := by
    have hdirect := direct_members fun o ho => (hsound.slots o ho).promotes
    rw [← hr', LayoutResult.paddingBytes, LayoutResult.direct, Sequenced.members]
    simp only [StructState.close] at hdirect ⊢
    rw [hdirect, List.map_map]
    rfl
  have hsize : r.size = Number.roundUp (t.close p).endOffset alignment := by rw [← hr']
  have hcard : ((freeBytes t.slots r.size).card : Int) = r.paddingBytes + skipped := by
    rw [hsize, hfree, haccounted.free, hpadding]
    omega
  refine ⟨cap, t.close p, skipped, hcap, hs, hr, hskipped, hnonneg, hcard, ?_⟩
  intro hreported
  rw [hzero hreported, Int.add_zero] at hcard
  exact hcard.symm

/-- **All free bytes of a struct are accounted for** in its layout, and in what engines answer for
it, whatever they were asked before. -/
theorem layoutOf_padding {p : Profile} {a : Aggregate} (hkind : a.kind = .struct) :
    (∀ r, layoutOf p (.aggregate a) = .ok r → a.AccountsForPadding p r) ∧
      ∀ r, Engine.MayAnswer p a r → a.canonical.AccountsForPadding p r.canonical :=
  ⟨fun _ hr => Aggregate.accountsForPadding_of_layoutOf hkind hr, fun _ hr =>
    Aggregate.accountsForPadding_of_layoutOf (a.canonical_kind.trans hkind) hr.canonical⟩

/-- A beacon whose second field has no name and starts a unit of its own. -/
def beacon : Aggregate where
  kind := .struct
  members :=
    [⟨.primitive ⟨"char", some (.int 1), none⟩, some "kind", .none⟩,
     ⟨.bitfield ⟨"int", some (.int 4), none⟩ (.int 8), none, .none⟩,
     ⟨.primitive ⟨"char", some (.int 1), none⟩, some "power", .none⟩]
  name := some "beacon"
  pack := none
  attributes := .none
  origin := .written ["beacon"]

/-- In unit packing a beacon has six free bytes: three at its end, which are recorded, and three in
front of the field without a name.  So it has as an engine answers for it. -/
theorem layoutOf_padding_beacon :
    ∃ r s, layoutOf .lp64 (.aggregate beacon) = .ok r ∧ beacon.finish s = .ok r ∧
      r.paddingBytes = 3 ∧ (freeBytes s.slots r.size).card = 6 ∧
      ∃ r' s', Engine.MayAnswer .lp64 beacon r' ∧ beacon.canonical.finish s' = .ok r'.canonical ∧
        r'.canonical.paddingBytes = 3 ∧ (freeBytes s'.slots r'.canonical.size).card = 6 := by
  have hpadding : (layoutOf .lp64 (.aggregate beacon)).toOption.map (·.paddingBytes) = some 3 := by
    decide +kernel
  have hunrecorded : (unrecordedPadding .lp64 none .start beacon.members).toOption = some 3 := by
    decide +kernel
  obtain ⟨r, hr, hthree⟩ := Option.map_eq_some_iff.mp hpadding
  rw [Except.toOption_eq_some] at hr hunrecorded
  obtain ⟨hplain, hengine⟩ := layoutOf_padding (p := .lp64) (a := beacon) rfl
  -- The canonical beacon has the same members.
  have hfree {b : Aggregate} {t : LayoutResult} (hcap : b.packCap = .ok none)
      (hsame : b.members = beacon.members) (hthree : t.paddingBytes = 3)
      (h : b.AccountsForPadding .lp64 t) :
      ∃ s, b.finish s = .ok t ∧ (freeBytes s.slots t.size).card = 6 := by
    obtain ⟨cap, s, skipped, hcap', -, hfinish, hskipped, -, hcard, -⟩ := h
    obtain rfl : none = cap := Except.ok.inj (hcap.symm.trans hcap')
    rw [hsame, hunrecorded] at hskipped
    obtain rfl := Except.ok.inj hskipped
    exact ⟨s, hfinish, by omega⟩
  obtain ⟨s, hfinish, hsix⟩ := hfree rfl rfl hthree (hplain r hr)
  obtain ⟨r', hr', hcanonical⟩ := Engine.exists_mayAnswer hr
  have hthree' : r'.canonical.paddingBytes = 3 := by
    rw [hcanonical, LayoutResult.paddingBytes_through, hthree]
  obtain ⟨s', hfinish', hsix'⟩ := hfree rfl rfl hthree' (hengine r' hr')
  exact ⟨r, s, hr, hfinish, hthree, hsix, r', s', hr', hfinish', hthree', hsix'⟩

/-- A fence with a bitfield of width zero between two characters. -/
def fence : Aggregate where
  kind := .struct
  members :=
    [⟨.primitive ⟨"char", some (.int 1), none⟩, some "left", .none⟩,
     ⟨.bitfield ⟨"int", some (.int 4), none⟩ (.int 0), none, .none⟩,
     ⟨.primitive ⟨"char", some (.int 1), none⟩, some "right", .none⟩]
  name := some "fence"
  pack := none
  attributes := .none
  origin := .written ["fence"]

/-- The recorded padding of a fence is not the number of its free bytes: in bits packing three bytes
are free, and none is recorded. -/
theorem paddingBytes_fence_ne :
    ∃ r s, layoutOf .sysvX8664 (.aggregate fence) = .ok r ∧ fence.packCap = .ok none ∧
      sequenceStruct Setting.pure .sysvX8664 none
        (measureMembers Setting.pure .sysvX8664 fence.members) = .ok s ∧
      fence.finish s = .ok r ∧ r.paddingBytes ≠ (freeBytes s.slots r.size).card := by
  have hlayout : (layoutOf .sysvX8664 (.aggregate fence)).toOption.map
      (fun r => (r.size, r.paddingBytes)) = some (5, 0) := by
    decide +kernel
  have hfree : (sequenceStruct Setting.pure .sysvX8664 none
      (measureMembers Setting.pure .sysvX8664 fence.members)).toOption.map
        (fun s => (freeBytes s.slots 5).card) = some 3 := by
    decide +kernel
  obtain ⟨r, hr, hpair⟩ := Option.map_eq_some_iff.mp hlayout
  rw [Except.toOption_eq_some] at hr
  obtain ⟨hsize, hpadding⟩ := Prod.mk.inj hpair
  obtain ⟨cap, s, hcap, hs, hfinish⟩ := Aggregate.layoutOf_struct_eq_ok rfl hr
  obtain rfl : none = cap := Except.ok.inj hcap
  rw [hs] at hfree
  have hthree : (freeBytes s.slots 5).card = 3 := Option.some.inj hfree
  refine ⟨r, s, hr, hcap, hs, hfinish, ?_⟩
  rw [hsize, hpadding, hthree]
  decide

end RecordLayout
