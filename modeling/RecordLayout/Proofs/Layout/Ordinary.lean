import RecordLayout.Profile.BuiltIn
import RecordLayout.Proofs.Layout.Aligned

/-!
# Sizes that are multiples of alignments

A type whose size is a multiple of its alignment can follow itself without a gap.  The primitives of
the built-in profiles are such types, and so are arrays of such types.  Aggregates always are, as
their size is rounded up to their alignment.  A cap lowers an alignment to one of its divisors and
so keeps the property; a requested alignment need not.

## Main definitions

* `Member.isOrdinary` members are of such a type and ask for no alignment.

## Main results

* `Member.dvd_of_isOrdinary`: the size of an ordinary member is a multiple of its alignment.
-/

namespace RecordLayout

open Number (isPowerOfTwo)

/-- Whether a type is an aggregate, an open-ended array, or an array of primitives or aggregates,
where primitives leave their size and alignment to the profile. -/
def TypeNode.isOrdinary : TypeNode → Bool
  | .primitive q => q.size.isNone && q.alignment.isNone
  | .aggregate _ => true
  | .array e _ => e.isOrdinary
  | .flexibleArray _ => true
  | _ => false

/-- Whether a member is of an ordinary type and asks for no alignment. -/
def Member.isOrdinary (x : Member) : Bool :=
  x.type.isOrdinary && x.attributes.requested?.isNone

namespace Profile

theorem mem_of_get? {key : String} {value : Int} {table : SortedTable String Int}
    (h : SortedTable.get? key table = some value) : (key, value) ∈ table := by
  induction table with
  | nil => cases h
  | cons entry table ih =>
    obtain ⟨k, v⟩ := entry
    unfold SortedTable.get? at h
    split at h
    · obtain rfl := Option.some.inj h
      subst k
      exact List.mem_cons_self
    · exact List.mem_cons_of_mem _ (ih h)

/-- The built-in profiles align every size in their tables to one of its divisors. -/
theorem dvd_of_builtIn : ∀ p ∈ builtIn,
    p.IsAligned ∧ p.alignmentFor p.pointerWidth ∣ p.pointerWidth ∧
    ∀ entry ∈ p.primitiveSizes, p.alignmentFor entry.2 ∣ entry.2 := by
  decide +kernel

theorem dvd_of_sizeOf? {p : Profile} (hp : p ∈ builtIn) {spelling : String} {size : Int}
    (h : p.sizeOf? spelling = some size) : p.alignmentFor size ∣ size := by
  obtain ⟨-, hpointer, htable⟩ := dvd_of_builtIn p hp
  unfold sizeOf? at h
  dsimp only at h
  split at h
  · obtain rfl := Option.some.inj h
    exact hpointer
  · exact htable _ (mem_of_get? h)

theorem dvd_of_primitiveExtent {p : Profile} (hp : p ∈ builtIn) {q : Primitive} {x : Extent}
    (hq : (TypeNode.primitive q).isOrdinary = true) (h : p.primitiveExtent q = .ok x) :
    x.alignment ∣ x.size := by
  obtain ⟨name, size, alignment⟩ := q
  simp only [TypeNode.isOrdinary, Bool.and_eq_true, Option.isNone_iff_eq_none] at hq
  obtain ⟨rfl, rfl⟩ := hq
  cases hnamed : p.sizeOf? name with
  | none => simp [primitiveExtent, hnamed] at h
  | some size =>
    by_cases hsize : size ≤ 0
    · simp [primitiveExtent, hnamed, Quantity.value, hsize] at h
    · simp only [primitiveExtent, hnamed, Option.map_some, Quantity.value, hsize, Option.none_or,
        Option.orElse_eq_orElse, Option.orElse_eq_or, if_false, primitiveAlignment, Except.map,
        Except.ok.injEq] at h
      subst h
      exact dvd_of_sizeOf? hp hnamed

end Profile

/-- **The sizes of ordinary types are multiples of their alignments.** -/
theorem ordinary_invariant {p : Profile} (hp : p ∈ Profile.builtIn) :
    LayoutInvariant p
      (fun node x => isPowerOfTwo x.alignment = true ∧
        (node.isOrdinary = true → x.alignment ∣ x.size))
      fun _ r => isPowerOfTwo r.alignment = true ∧ r.alignment ∣ r.size where
  primitive h :=
    ⟨Profile.isPowerOfTwo_primitiveExtent (Profile.dvd_of_builtIn p hp).1 h,
      fun hq => Profile.dvd_of_primitiveExtent hp hq h⟩
  array hx _ := ⟨hx.1, fun he => Int.dvd_trans (hx.2 he) (Int.dvd_mul_right _ _)⟩
  flexible hx _ := ⟨hx.1, fun _ => Int.dvd_zero _⟩
  aggregate hr := ⟨hr.1, fun _ => hr.2⟩
  compute hcap hcomes hfinish := by
    have haligned := (aligned_invariant (Profile.dvd_of_builtIn p hp).1).compute hcap
      (hcomes.mono fun _ _ _ => Sized.mono (fun _ _ h => h.1) fun _ _ h => h.1) hfinish
    refine ⟨haligned, ?_⟩
    obtain ⟨alignment, -, rfl⟩ := Except.map_eq_ok.mp hfinish
    exact Number.dvd_roundUp _ (Number.pos_of_isPowerOfTwo haligned)

/-- A cap lowers an alignment to one of its divisors. -/
theorem capAlignment_dvd {n : Int} {cap : Option Int} (hcap : ∀ c ∈ cap, isPowerOfTwo c = true)
    (hn : isPowerOfTwo n = true) : capAlignment n cap ∣ n := by
  cases cap with
  | none => exact Int.dvd_refl n
  | some c =>
    exact Number.dvd_of_le (isPowerOfTwo_capAlignment hcap hn) hn (Int.min_le_left n c)

/-- **The size of an ordinary member is a multiple of its alignment.** -/
theorem Member.dvd_of_isOrdinary {p : Profile} (hp : p ∈ Profile.builtIn) {x : Member}
    (hx : x.isOrdinary = true) {cap : Option Int} (hcap : ∀ c ∈ cap, isPowerOfTwo c = true)
    {natural extent : Extent} (hnatural : (x.type.measure Setting.pure p).extent = .ok natural)
    (hextent : p.memberExtent x cap natural = .ok extent) : extent.alignment ∣ extent.size := by
  simp only [isOrdinary, Bool.and_eq_true, Option.isNone_iff_eq_none] at hx
  have htype : ∀ base width, x.type ≠ .bitfield base width := by
    intro base width htype
    rw [htype] at hx
    cases hx.1
  obtain ⟨hpower, hdvd⟩ := (ordinary_invariant hp).of_extent htype hnatural
  obtain rfl : natural.capped (x.cap cap) = extent := by
    simpa only [Profile.memberExtent, hx.2, Except.ok.injEq] using hextent
  exact Int.dvd_trans (capAlignment_dvd (isPowerOfTwo_memberCap x hcap) hpower) (hdvd hx.1)

end RecordLayout
