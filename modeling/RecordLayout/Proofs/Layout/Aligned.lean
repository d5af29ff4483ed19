import RecordLayout.Profile.Reader
import RecordLayout.Proofs.Layout.Induction
import RecordLayout.Proofs.Layout.MemberExtent
import RecordLayout.Proofs.Layout.Placement

/-!
# Alignments are powers of two

Every alignment that goes into a layout is checked to be a power of two: those in the table of a
profile, those of primitives, those that are requested and those of packs.  A cap takes the least of
two alignments and an aggregate the greatest of many, so the alignments that come out are powers of
two as well, and of any two of them one divides the other.

## Main definitions

* `Profile.IsAligned` is the check that every profile passes.

## Main results

* `Profile.isAligned_of_ofJson`: a profile that is read has passed it;
* `isPowerOfTwo_of_layoutOf`: the alignment of an aggregate is a power of two.
-/

namespace RecordLayout

open Number (isPowerOfTwo)

/-! ## Profiles -/

namespace Profile

/-- All alignments in the table of a profile are powers of two. -/
def IsAligned (p : Profile) : Prop := badAlignment? p.alignmentTable = none

instance (p : Profile) : Decidable p.IsAligned :=
  inferInstanceAs (Decidable (badAlignment? p.alignmentTable = none))

theorem isAligned_of_check {d : Draft} {p : Profile} (h : d.check = .ok p) : p.IsAligned := by
  unfold Draft.check refuse at h
  dsimp only at h
  split at h
  · cases h
  · split at h
    · cases h
    · split at h
      · cases h
      · split at h
        · cases h
        · rename_i hbad
          cases h
          exact hbad

/-- **A profile that is read is aligned.** -/
theorem isAligned_of_ofJson {defaultName : String} {v : Json} {p : Profile}
    (h : ofJson defaultName v = .ok p) : p.IsAligned := by
  unfold ofJson refuse at h
  split at h
  · split at h
    · obtain ⟨d, -, hd⟩ := Except.bind_eq_ok.mp h
      exact isAligned_of_check hd
    · cases h
  · cases h

theorem isAligned_iff {p : Profile} :
    p.IsAligned ↔ ∀ entry ∈ p.alignmentTable, isPowerOfTwo entry.2 = true := by
  simp [IsAligned, badAlignment?]

/-- What a table has for a size is one of its alignments, or the one to fall back on. -/
theorem isPowerOfTwo_alignmentIn {table : SortedTable Int Int}
    (h : ∀ entry ∈ table, isPowerOfTwo entry.2 = true) (size : Int) {best : Int}
    (hbest : isPowerOfTwo best = true) : isPowerOfTwo (alignmentIn size best table) = true := by
  induction table generalizing best with
  | nil => exact hbest
  | cons entry table ih =>
    have halignment := h entry List.mem_cons_self
    have htable := fun e he => h e (List.mem_cons_of_mem entry he)
    unfold alignmentIn
    split
    · exact halignment
    · split
      · exact ih htable halignment
      · exact ih htable hbest

theorem isPowerOfTwo_alignmentFor {p : Profile} (hp : p.IsAligned) (size : Int) :
    isPowerOfTwo (p.alignmentFor size) = true :=
  isPowerOfTwo_alignmentIn (isAligned_iff.mp hp) size rfl

end Profile

theorem alignmentOf?_eq_some {v : Json} {n : Int} (h : alignmentOf? v = some n) :
    v = .int n ∧ isPowerOfTwo n = true := by
  unfold alignmentOf? at h
  split at h
  · split at h
    · cases h
      exact ⟨rfl, ‹_›⟩
    · cases h
  · cases h

theorem Profile.isPowerOfTwo_primitiveExtent {p : Profile} (hp : p.IsAligned) {q : Primitive}
    {x : Extent} (h : p.primitiveExtent q = .ok x) : isPowerOfTwo x.alignment = true := by
  unfold primitiveExtent at h
  split at h
  · cases h
  · rename_i size _
    split at h
    · cases h
    · obtain ⟨alignment, ha, rfl⟩ := Except.map_eq_ok.mp h
      unfold primitiveAlignment at ha
      split at ha
      · cases ha
        exact isPowerOfTwo_alignmentFor hp size.value
      · split at ha
        · cases ha
          exact (alignmentOf?_eq_some ‹_›).2
        · cases ha

/-! ## Caps and requests -/

section Caps

variable {cap : Option Int} {n : Int}

theorem isPowerOfTwo_capAlignment (hcap : ∀ c ∈ cap, isPowerOfTwo c = true)
    (hn : isPowerOfTwo n = true) : isPowerOfTwo (capAlignment n cap) = true := by
  cases cap with
  | none => exact hn
  | some c => exact Number.isPowerOfTwo_min hn (hcap c rfl)

/-- The cap of an aggregate comes from its pack, unless it is packed.  The pack is checked in either
case. -/
theorem Aggregate.packCap_eq_ok {a : Aggregate} (h : a.packCap = .ok cap) :
    ∃ written : Option Int, a.pack = written.map Json.int ∧
      (∀ c ∈ written, isPowerOfTwo c = true) ∧
      cap = if a.attributes.packed then some 1 else written := by
  unfold packCap at h
  cases hpack : a.pack with
  | none =>
    simp only [hpack] at h
    cases h
    exact ⟨none, rfl, nofun, rfl⟩
  | some pack =>
    cases hn : alignmentOf? pack with
    | none =>
      simp only [hpack, hn] at h
      cases h
    | some n =>
      simp only [hpack, hn] at h
      cases h
      obtain ⟨rfl, hpower⟩ := alignmentOf?_eq_some hn
      refine ⟨some n, rfl, ?_, rfl⟩
      rintro c ⟨⟩
      exact hpower

theorem isPowerOfTwo_packCap {a : Aggregate} (h : a.packCap = .ok cap) :
    ∀ c ∈ cap, isPowerOfTwo c = true := by
  obtain ⟨written, -, hwritten, rfl⟩ := Aggregate.packCap_eq_ok h
  intro c hc
  split at hc
  · cases hc
    rfl
  · exact hwritten c hc

theorem isPowerOfTwo_memberCap (x : Member) (hcap : ∀ c ∈ cap, isPowerOfTwo c = true) :
    ∀ c ∈ x.cap cap, isPowerOfTwo c = true := by
  unfold Member.cap
  split
  · rintro c ⟨⟩
    rfl
  · exact hcap

theorem isPowerOfTwo_of_checkAligned {requested : Int} {what : String}
    (h : checkAligned requested what = .ok ()) : isPowerOfTwo requested = true := by
  unfold checkAligned at h
  split at h
  · assumption
  · cases h

/-- A requested alignment that is acceptable is a power of two. -/
theorem Profile.isPowerOfTwo_requested {p : Profile} {x : Member} (h : p.checkRequested x = .ok ())
    {requested : Int} (hr : x.attributes.requested? = some requested) :
    isPowerOfTwo requested = true := by
  simp only [checkRequested, hr] at h
  obtain ⟨⟨⟩, hcheck, -⟩ := Except.bind_eq_ok.mp h
  exact isPowerOfTwo_of_checkAligned hcheck

theorem Profile.isPowerOfTwo_raisedAlignment {p : Profile} {x : Member}
    (hcheck : p.checkRequested x = .ok ()) (hcap : ∀ c ∈ cap, isPowerOfTwo c = true)
    (hn : isPowerOfTwo n = true) : isPowerOfTwo (p.raisedAlignment x cap n) = true := by
  have hmember := isPowerOfTwo_memberCap x hcap
  unfold raisedAlignment
  cases hr : x.attributes.requested? with
  | none => exact isPowerOfTwo_capAlignment hmember hn
  | some requested =>
    have hrequested := isPowerOfTwo_requested hcheck hr
    dsimp only
    -- A profile raises after the cap or before it; both keep powers of two.
    split
    · exact Number.isPowerOfTwo_max (isPowerOfTwo_capAlignment hmember hn) hrequested
    · exact isPowerOfTwo_capAlignment hmember (Number.isPowerOfTwo_max hn hrequested)

theorem Profile.isPowerOfTwo_memberExtent {p : Profile} {x : Member} {natural extent : Extent}
    (h : p.memberExtent x cap natural = .ok extent) (hcap : ∀ c ∈ cap, isPowerOfTwo c = true)
    (hn : isPowerOfTwo natural.alignment = true) : isPowerOfTwo extent.alignment = true := by
  rw [memberExtent_eq] at h
  obtain ⟨⟨⟩, hcheck, rfl⟩ := Except.map_eq_ok.mp h
  exact isPowerOfTwo_raisedAlignment hcheck hcap hn

theorem Aggregate.isPowerOfTwo_alignmentFrom {a : Aggregate} {m : Int}
    (h : a.alignmentFrom n = .ok m) (hn : isPowerOfTwo n = true) : isPowerOfTwo m = true := by
  unfold alignmentFrom at h
  split at h
  · cases h
    exact hn
  · obtain ⟨⟨⟩, hcheck, rfl⟩ := Except.map_eq_ok.mp h
    exact Number.isPowerOfTwo_max hn (isPowerOfTwo_of_checkAligned hcheck)

theorem Aggregate.le_alignmentFrom {a : Aggregate} {m : Int} (h : a.alignmentFrom n = .ok m) :
    n ≤ m := by
  unfold alignmentFrom at h
  split at h
  · exact Int.le_of_eq (Except.ok.inj h)
  · obtain ⟨-, -, rfl⟩ := Except.map_eq_ok.mp h
    exact Int.le_max_left _ _

end Caps

/-! ## Walks -/

section Walks

variable {p : Profile} {cap : Option Int} {x : Member}

/-- The alignment of a bitfield. -/
theorem isPowerOfTwo_place (hp : p.IsAligned) (hcap : ∀ c ∈ cap, isPowerOfTwo c = true)
    {base : Primitive} {width : Json} {field : Bitfield.Field} {cursor : Int}
    {unit : Option Bitfield.OpenUnit} {placed : Bitfield.Placed} {place : Bitfield.Placement}
    (hfield : bitfieldOf p x cap base width = .ok field)
    (hplaced : Bitfield.place p field cursor unit = .ok placed)
    (hplace : placed.placement = some place) : isPowerOfTwo place.alignment = true := by
  obtain ⟨natural, -, hnatural, rfl⟩ := bitfieldOf_eq_ok hfield
  rw [Bitfield.alignment_of_place hplaced hplace]
  exact isPowerOfTwo_capAlignment (isPowerOfTwo_memberCap x hcap)
    (p.isPowerOfTwo_primitiveExtent hp hnatural)

theorem isPowerOfTwo_raisedBy {place : Bitfield.Placement} {n : Int} (hn : isPowerOfTwo n = true)
    (hplace : isPowerOfTwo place.alignment = true) :
    isPowerOfTwo (raisedBy p x place n) = true := by
  unfold raisedBy
  split
  · exact Number.isPowerOfTwo_max hn hplace
  · exact hn

/-- What a walk knows of the types of members. -/
abbrev SizedAligned : TypeNode → Extent → Option LayoutResult → Prop :=
  Sized (fun _ x => isPowerOfTwo x.alignment = true) fun _ r => isPowerOfTwo r.alignment = true

theorem StructStep.isPowerOfTwo_alignment (hp : p.IsAligned)
    (hcap : ∀ c ∈ cap, isPowerOfTwo c = true) {s t : StructState}
    (hs : isPowerOfTwo s.alignment = true) (h : StructStep p cap SizedAligned x s t) :
    isPowerOfTwo t.alignment = true := by
  cases h with
  | skipped type open_ field_eq placed_eq placement => exact hs
  | bitfield type open_ field_eq placed_eq placement =>
    exact isPowerOfTwo_raisedBy hs (isPowerOfTwo_place hp hcap field_eq placed_eq placement)
  | flexible type open_ named sized empty extent_eq offset_eq =>
    exact Number.isPowerOfTwo_max hs (Profile.isPowerOfTwo_memberExtent extent_eq hcap sized.1)
  | value type open_ anonymous sized extent_eq offset_eq =>
    exact Number.isPowerOfTwo_max hs (Profile.isPowerOfTwo_memberExtent extent_eq hcap sized.1)

theorem UnionStep.isPowerOfTwo_alignment (hp : p.IsAligned)
    (hcap : ∀ c ∈ cap, isPowerOfTwo c = true) {s t : UnionState}
    (hs : isPowerOfTwo s.alignment = true) (h : UnionStep p cap SizedAligned x s t) :
    isPowerOfTwo t.alignment = true := by
  cases h with
  | skipped type field_eq placed_eq placement => exact hs
  | bitfield type field_eq placed_eq placement =>
    exact isPowerOfTwo_raisedBy hs (isPowerOfTwo_place hp hcap field_eq placed_eq placement)
  | value type anonymous sized extent_eq =>
    exact Number.isPowerOfTwo_max hs (Profile.isPowerOfTwo_memberExtent extent_eq hcap sized.1)

theorem Sequenced.Comes.isPowerOfTwo_alignment (hp : p.IsAligned)
    (hcap : ∀ c ∈ cap, isPowerOfTwo c = true) {kind : AggregateKind} {members : List Member}
    {s : Sequenced} (h : s.Comes p cap SizedAligned kind members) :
    isPowerOfTwo s.alignment = true := by
  cases h with
  | struct kind_eq walk =>
    exact walk.snoc_induction (motive := fun _ s => isPowerOfTwo s.alignment = true) rfl
      fun _ _ _ _ _ hs hstep => hstep.isPowerOfTwo_alignment hp hcap hs
  | union kind_eq walk =>
    exact walk.snoc_induction (motive := fun _ s => isPowerOfTwo s.alignment = true) rfl
      fun _ _ _ _ _ hs hstep => hstep.isPowerOfTwo_alignment hp hcap hs

end Walks

/-- **Powers of two make up powers of two.** -/
theorem aligned_invariant {p : Profile} (hp : p.IsAligned) :
    LayoutInvariant p (fun _ x => isPowerOfTwo x.alignment = true)
      fun _ r => isPowerOfTwo r.alignment = true where
  primitive h := p.isPowerOfTwo_primitiveExtent hp h
  array hx _ := hx
  flexible hx _ := hx
  aggregate hr := hr
  compute hcap hcomes hfinish := by
    obtain ⟨alignment, halignment, rfl⟩ := Except.map_eq_ok.mp hfinish
    apply Aggregate.isPowerOfTwo_alignmentFrom halignment
    exact hcomes.isPowerOfTwo_alignment hp (isPowerOfTwo_packCap hcap)

/-- The members of an aggregate ask for a power of two. -/
theorem isPowerOfTwo_sequenceMembers {p : Profile} (hp : p.IsAligned) {cap : Option Int}
    (hcap : ∀ c ∈ cap, isPowerOfTwo c = true) {kind : AggregateKind} {members : List Member}
    {s : Sequenced}
    (h : sequenceMembers Setting.pure p cap kind (measureMembers Setting.pure p members) = .ok s) :
    isPowerOfTwo s.alignment = true :=
  ((aligned_invariant hp).comes h).isPowerOfTwo_alignment hp hcap

/-- **The alignment of an aggregate is a power of two.** -/
theorem isPowerOfTwo_of_layoutOf {p : Profile} (hp : p.IsAligned) {a : Aggregate} {r : LayoutResult}
    (h : layoutOf p (.aggregate a) = .ok r) : isPowerOfTwo r.alignment = true :=
  (aligned_invariant hp).of_layoutOf h

end RecordLayout
