import Mathlib
import RecordLayout.Proofs.Layout.Canonical
import RecordLayout.Proofs.Layout.Saving

/-!
# What a suggested order saves in an engine

An engine makes a suggestion out of two of its answers, and it may have answered for other types
before.  The suggestion is all the same the plain one of the canonical struct, in canonical form.
The sizes that any engine comes to for the orders of the members are sizes of orders of the
canonical struct, so what holds of a plain suggestion holds of that of an engine.

## Main definitions

* `Suggestion.canonical` is a suggestion in canonical form;
* `Engine.orderSizes` are the sizes of the orders of the members, in all engines.

## Main results

* `suggestedOrder_canonical`: the suggested order does not look at what a canonical form forgets;
* `Engine.suggestReorder_canonical`: a suggestion made by way of an engine, in canonical form;
* `Engine.suggestReorder_saves`: what it saves, and when it is no worse than any order.
-/

namespace RecordLayout

variable {p : Profile}

/-! ## Canonical suggestions -/

/-- A suggestion in canonical form. -/
def Suggestion.canonical (s : Suggestion) : Suggestion :=
  ⟨s.members.map Member.canonical, s.layout.canonical, s.declaredSize⟩

/-- A member of a canonical type with its extent. -/
def PlacedMember.canonical (x : PlacedMember) : PlacedMember :=
  ⟨x.member.canonical, x.extent.canonical⟩

section Orders

variable (r : LayoutResult) (members : List Member)

theorem memberKey_canonical (x : Member) (index : Nat) :
    memberKey x.canonical index = memberKey x index := by
  cases x
  rfl

theorem placedMembers_canonical (index : Nat) :
    placedMembers r.canonical index (members.map Member.canonical) =
      (placedMembers r index members).map PlacedMember.canonical := by
  induction members generalizing index with
  | nil => rfl
  | cons x xs ih =>
    rw [List.map_cons, placedMembers, placedMembers, ih, memberKey_canonical,
      directExtent?_through, List.map_cons]
    cases r.directExtent? (memberKey x index) <;> rfl

theorem Member.isFlexible_canonical (x : Member) : x.canonical.isFlexible = x.isFlexible := by
  obtain ⟨type, name, attributes⟩ := x
  cases type <;> rfl

theorem Member.isBitfield_canonical (x : Member) : x.canonical.isBitfield = x.isBitfield := by
  obtain ⟨type, name, attributes⟩ := x
  cases type <;> rfl

/-- **The suggested order does not look at what a canonical form forgets.** -/
theorem suggestedOrder_canonical :
    suggestedOrder r.canonical (members.map Member.canonical) =
      (suggestedOrder r members).map Member.canonical := by
  have harranged := arranged_map (f := PlacedMember.canonical)
    (fun x => x.member.isFlexible_canonical) (fun _ _ => rfl) (placedMembers r 0 members)
  rw [suggestedOrder_eq_arranged, placedMembers_canonical, harranged, List.map_map,
    suggestedOrder_eq_arranged, List.map_map]
  rfl

/-- Layouts of one canonical form suggest one order. -/
theorem suggestedOrder_congr {r r' : LayoutResult} (h : r'.canonical = r.canonical) :
    suggestedOrder r' members = suggestedOrder r members := by
  rw [← suggestedOrder_through .canonical r', show r'.through .canonical = _ from h,
    suggestedOrder_through]

theorem keysFrom_canonical (index : Nat) :
    keysFrom index (members.map Member.canonical) = keysFrom index members := by
  induction members generalizing index with
  | nil => rfl
  | cons x xs ih => rw [List.map_cons, keysFrom, keysFrom, memberKey_canonical, ih]

end Orders

section Paddings

variable (r : LayoutResult) (s : Suggestion)

@[simp] theorem MemberLayout.canonical_isFlexible (m : MemberLayout) :
    m.canonical.isFlexible = m.isFlexible := by
  obtain ⟨key, name, type, byteOffset, size, alignment, bits, paddingBefore, promoted, layout,
    sizeIsFlag⟩ := m
  cases type <;> rfl

/-- Gaps are seen in a canonical form. -/
theorem Suggestion.isGapless_canonical : s.canonical.IsGapless ↔ s.IsGapless := by
  simp only [IsGapless, canonical, LayoutResult.through_direct, List.forall_mem_map,
    MemberLayout.canonical_isFlexible, MemberLayout.through_paddingBefore]

/-- Sizes and alignments are seen in a canonical form. -/
theorem Suggestion.isSnug_canonical : s.canonical.IsSnug ↔ s.IsSnug := by
  have hflexible : (fun m : MemberLayout => !m.isFlexible) ∘ MemberLayout.canonical =
      fun m => !m.isFlexible := funext fun m => congrArg not m.canonical_isFlexible
  simp only [IsSnug, canonical, LayoutResult.through_direct, List.filter_map, hflexible,
    List.pairwise_map, MemberLayout.through_size, MemberLayout.through_alignment]

end Paddings

/-! ## Suggestions of an engine -/

namespace Engine

variable {channels : Channels} {limit : Option Int} {calls : List Call} {a : Aggregate}
  {s : Suggestion}

/-- **What a suggestion of an engine comes from**: the engine is asked for the struct as it is
declared, and then for the struct in the suggested order. -/
theorem suggestReorder_eq_ok {e : Engine}
    (h : ((suggestReorder (layout p) (.aggregate a)).run e).1 = .ok (some s)) :
    a.kind = .struct ∧ a.members.any Member.isBitfield = false ∧
      ∃ r, ((layout p (.aggregate a)).run e).1 = .ok r ∧
        s.members = suggestedOrder r a.members ∧ s.declaredSize = r.size ∧
        ((layout p (.aggregate { a with members := s.members })).run
          (e.after (.layout p (.aggregate a)))).1 = .ok s.layout := by
  by_cases hsorted : a.kind = .struct ∧ a.members.any Member.isBitfield = false
  swap
  · rw [suggestReorder_eq_none _ hsorted] at h
    cases h
  refine ⟨hsorted.1, hsorted.2, ?_⟩
  rw [suggestReorder_struct _ hsorted.1 hsorted.2, EngineM.run_bind] at h
  rw [after]
  -- The second question is asked of the engine that the first one leaves.
  generalize (layout p (.aggregate a)).run e = first at h ⊢
  obtain ⟨f | r, e'⟩ := first
  · cases h
  · dsimp only at h ⊢
    rw [EngineM.run_bind] at h
    generalize hsecond : (layout p (.aggregate
      { a with members := suggestedOrder r a.members })).run e' = second at h
    obtain ⟨f | best, e''⟩ := second
    · cases h
    · obtain rfl := Option.some.inj (Except.ok.inj h)
      exact ⟨r, rfl, rfl, rfl, congrArg Prod.fst hsecond⟩

/-- A call after others. -/
theorem after_replay (e : Engine) (calls : List Call) (c : Call) :
    (e.replay calls).after c = e.replay (calls ++ [c]) := by
  rw [replay, replay, List.foldl_append]
  rfl

/-- **A suggestion made by way of an engine** is the plain one of the canonical struct, in canonical
form, whatever was asked of the engine before. -/
theorem suggestReorder_canonical
    (h : ((suggestReorder (layout p) (.aggregate a)).run ((make channels limit).replay calls)).1 =
      .ok (some s)) :
    suggestReorder (layoutOf p) (.aggregate a.canonical) = .ok (some s.canonical) := by
  obtain ⟨hkind, hbits, r, hr, hmembers, hdeclared, hbest⟩ := suggestReorder_eq_ok h
  rw [after_replay] at hbest
  have hplain := layout_canonical hr
  have hplain' := layout_canonical hbest
  have hbits' : a.canonical.members.any Member.isBitfield = false := by
    rw [Aggregate.canonical_members, List.any_map, ← hbits]
    congr 1
    exact funext Member.isBitfield_canonical
  rw [suggestReorder_struct _ (a.canonical_kind.trans hkind) hbits', hplain]
  refine Except.bind_eq_ok.mpr ⟨r.canonical, rfl, ?_⟩
  have horder : suggestedOrder r.canonical a.canonical.members =
      s.members.map Member.canonical := by
    rw [Aggregate.canonical_members, suggestedOrder_canonical, hmembers]
  dsimp only
  rw [horder, ← Aggregate.canonical_with_members, hplain', r.through_size _, ← hdeclared]
  rfl

/-- The sizes that the orders of the members of an aggregate have, in all engines that may have been
asked anything before. -/
def orderSizes (p : Profile) (a : Aggregate) : Set Int :=
  {n | ∃ members channels limit calls r, members.Perm a.members ∧
    ((layout p (.aggregate { a with members })).run ((make channels limit).replay calls)).1 =
      .ok r ∧ r.size = n}

/-- Every engine comes to sizes of canonical orders. -/
theorem orderSizes_subset (p : Profile) (a : Aggregate) :
    orderSizes p a ⊆ a.canonical.orderSizes p := by
  rintro n ⟨members, channels, limit, calls, r, hperm, hr, rfl⟩
  have hplain := layout_canonical hr
  rw [Aggregate.canonical_with_members] at hplain
  refine ⟨members.map Member.canonical, r.canonical, ?_, hplain, r.through_size _⟩
  rw [Aggregate.canonical_members]
  exact hperm.map Member.canonical

/-- **What a suggestion saves.**  For members with distinct keys the suggested order differs from
the declared one by the padding of the two.  If it leaves no gaps, then no order of the members
takes less room, in whatever engine; it leaves none if each size is a multiple of all later
alignments. -/
theorem suggestReorder_saves (hkeys : (keysFrom 0 a.members).Nodup)
    (h : ((suggestReorder (layout p) (.aggregate a)).run ((make channels limit).replay calls)).1 =
      .ok (some s)) :
    ∃ r, ((layout p (.aggregate a)).run ((make channels limit).replay calls)).1 = .ok r ∧
      s.declaredSize = r.size ∧
      s.layout.size - r.size = s.layout.paddingBytes - r.paddingBytes ∧
      (s.IsGapless → IsLeast (orderSizes p a) s.layout.size ∧ s.layout.size ≤ s.declaredSize) ∧
      (s.IsSnug → s.IsGapless) := by
  obtain ⟨hkind, hbits, r, hr, hmembers, hdeclared, hbest⟩ := suggestReorder_eq_ok h
  rw [after_replay] at hbest
  have hkeys' : (keysFrom 0 a.canonical.members).Nodup := by
    rwa [Aggregate.canonical_members, keysFrom_canonical]
  -- The plain suggestion for the canonical struct is that of the engine in canonical form.
  obtain ⟨r', hr', -, hsize, hleast, hsnug⟩ :=
    saves_of_suggestReorder hkeys' (suggestReorder_canonical h)
  obtain rfl : r.canonical = r' := Except.ok.inj ((layout_canonical hr).symm.trans hr')
  have hlayout : s.canonical.layout = s.layout.canonical := rfl
  rw [hlayout] at hsize hleast
  simp only [LayoutResult.through_size, LayoutResult.paddingBytes_through] at hsize hleast
  refine ⟨r, hr, hdeclared, hsize, fun hgapless => ?_, fun h => ?_⟩
  · obtain ⟨hleast, hle⟩ := hleast (s.isGapless_canonical.mpr hgapless)
    refine ⟨⟨?_, ?_⟩, hle⟩
    · refine ⟨s.members, channels, limit, _, s.layout, ?_, hbest, rfl⟩
      rw [hmembers]
      exact suggestedOrder_perm r a.members
    · intro n hn
      exact hleast.2 (orderSizes_subset p a hn)
  · exact s.isGapless_canonical.mp (hsnug (s.isSnug_canonical.mpr h))

/-- A pixel with a colour of three bytes, which is no multiple of its alignment. -/
def pixel : Aggregate where
  kind := .struct
  members :=
    [⟨.primitive ⟨"char", some (.int 1), none⟩, some "tag", .none⟩,
     ⟨.primitive ⟨"int", some (.int 4), none⟩, some "index", .none⟩,
     ⟨.primitive ⟨"rgb", some (.int 3), none⟩, some "colour", .none⟩]
  name := some "pixel"
  pack := none
  attributes := .none
  origin := .written ["pixel"]

/-- The suggested order of a pixel takes no more room than any other one, as the colour is followed
by the tag only.  So it is in an engine that keeps one layout and has answered under another
profile. -/
theorem suggestReorder_saves_pixel :
    ∃ s, ((suggestReorder (layout .lp64) (.aggregate pixel)).run ((make [] (some 1)).replay
        [.layout .ilp32 (.aggregate pixel)])).1 = .ok (some s) ∧
      IsLeast (orderSizes .lp64 pixel) s.layout.size ∧ s.layout.size ≤ s.declaredSize := by
  have hmade : ((suggestReorder (layout .lp64) (.aggregate pixel)).run ((make [] (some 1)).replay
      [.layout .ilp32 (.aggregate pixel)])).1.toOption.map
        (Option.map fun s => (s.layout.direct.filter fun m => !m.isFlexible).map
          fun m => (m.size, m.alignment)) = some (some [(4, 4), (3, 2), (1, 1)]) := by
    cbv
  obtain ⟨o, ho, hextents⟩ := Option.map_eq_some_iff.mp hmade
  rw [Except.toOption_eq_some] at ho
  obtain ⟨s, rfl, hextents⟩ := Option.map_eq_some_iff.mp hextents
  replace hextents : (s.layout.direct.filter fun m => !m.isFlexible).map
      (fun m => (m.size, m.alignment)) = [(4, 4), (3, 2), (1, 1)] := Option.some.inj hextents
  obtain ⟨r, -, -, -, hleast, hgapless⟩ := suggestReorder_saves (by decide) ho
  have hsnug : s.IsSnug := by
    unfold Suggestion.IsSnug
    rw [← List.pairwise_map (f := fun m : MemberLayout => (m.size, m.alignment))
      (R := fun m n : Int × Int => n.2 ∣ m.1), hextents]
    decide
  exact ⟨s, ho, hleast (hgapless hsnug)⟩

/-- A crate whose mark is aligned to four bytes. -/
def crate : Aggregate where
  kind := .struct
  members :=
    [⟨.primitive ⟨"char", some (.int 1), none⟩, some "mark", ⟨false, [4]⟩⟩,
     ⟨.primitive ⟨"char", some (.int 1), none⟩, some "lid", .none⟩,
     ⟨.primitive ⟨"short", some (.int 2), none⟩, some "load", .none⟩]
  name := some "crate"
  pack := none
  attributes := .none
  origin := .written ["crate"]

/-- The suggested order of a crate is twice as long as the declared one: the mark comes first, and
the load leaves a gap after it. -/
theorem suggestReorder_crate_longer :
    (keysFrom 0 crate.members).Nodup ∧ (∀ x ∈ crate.members, x.isBitfield = false) ∧
      ∃ s, ((suggestReorder (layout .lp64) (.aggregate crate)).run (make [] none)).1 =
          .ok (some s) ∧
        s.declaredSize = 4 ∧ s.layout.size = 8 ∧ s.bytesSaved = 0 ∧
        ¬ s.layout.size ≤ s.declaredSize := by
  have hmade : ((suggestReorder (layout .lp64) (.aggregate crate)).run
      (make [] none)).1.toOption.map (Option.map fun s => (s.declaredSize, s.layout.size)) =
        some (some (4, 8)) := by
    cbv
  obtain ⟨o, ho, hsizes⟩ := Option.map_eq_some_iff.mp hmade
  rw [Except.toOption_eq_some] at ho
  obtain ⟨s, rfl, hsizes⟩ := Option.map_eq_some_iff.mp hsizes
  obtain ⟨hdeclared, hsize⟩ := Prod.mk.inj (Option.some.inj hsizes)
  refine ⟨by decide, by decide, s, ho, hdeclared, hsize, ?_, ?_⟩
  · rw [Suggestion.bytesSaved, Suggestion.optimizedSize, hdeclared, hsize]
    rfl
  · rw [hdeclared, hsize]
    decide

end Engine

end RecordLayout
