import RecordLayout.Proofs.Layout.Aligned
import RecordLayout.Proofs.Layout.Canonical
import RecordLayout.Proofs.Layout.MemberExtent

/-!
# Walks that do not fail

A walk in a setting that looks layouts up may come across other results than the plain walk, since a
look-up may return what was kept for a type that is the same key.  It cannot fail for that: whether
a member is refused depends on the member and on the profile, but neither on the room that its type
takes nor on the place that the walk has come to.  So whatever lays out plainly lays out in every
setting in which a look-up returns when the computation does that it replaces.

## Main definitions

* `Progress` is a way to show that computations in a setting return something.

## Main results

* `progress_invariant`: where the plain walk returns, so does the walk in a setting with progress;
* `Engine.exists_layout`: an engine that may keep layouts answers for every type that lays out.
-/

namespace RecordLayout

/-! ## Refusals that do not depend on the place -/

section Checks

variable {p : Profile} {cap : Option Int}

/-- A bitfield that can be placed somewhere can be placed anywhere. -/
theorem Bitfield.exists_place {f : Field} {cursor : Int} {unit : Option OpenUnit} {placed : Placed}
    (h : place p f cursor unit = .ok placed) (cursor' : Int) (unit' : Option OpenUnit) :
    ∃ placed', place p f cursor' unit' = .ok placed' := by
  simp only [place, Except.mapError_eq_ok] at h ⊢
  unfold attempt at h ⊢
  cases hwidth : f.checkedWidth with
  | error failure =>
    rw [hwidth] at h
    cases h
  | ok width =>
    simp only [hwidth] at h ⊢
    split at h
    · cases h
    · rename_i hwindow
      rw [if_neg hwindow]
      exact ⟨_, rfl⟩

/-- A member that fits with some extent of its type fits with any. -/
theorem Profile.exists_memberExtent {x : Member} {natural extent : Extent}
    (h : p.memberExtent x cap natural = .ok extent) (natural' : Extent) :
    ∃ extent', p.memberExtent x cap natural' = .ok extent' := by
  rw [memberExtent_eq] at h ⊢
  obtain ⟨_, hchecked, -⟩ := Except.map_eq_ok.mp h
  rw [hchecked]
  exact ⟨_, rfl⟩

/-- An aggregate that can be finished with some storage can be finished with any. -/
theorem Aggregate.exists_finish {a : Aggregate} {s : Sequenced} {r : LayoutResult}
    (h : a.finish s = .ok r) (s' : Sequenced) : ∃ r', a.finish s' = .ok r' := by
  have halignment : ∃ n, a.alignmentFrom s'.alignment = .ok n := by
    obtain ⟨n, hn, -⟩ := Except.map_eq_ok.mp h
    unfold alignmentFrom at hn ⊢
    cases hrequested : a.attributes.requested? with
    | none => exact ⟨_, rfl⟩
    | some requested =>
      simp only [hrequested] at hn ⊢
      obtain ⟨_, hchecked, -⟩ := Except.map_eq_ok.mp hn
      rw [hchecked]
      exact ⟨_, rfl⟩
  obtain ⟨n, hn⟩ := halignment
  exact ⟨_, Except.map_eq_ok.mpr ⟨n, hn, rfl⟩⟩

end Checks

/-- **A type that lays out can be looked up**: the constants in it are numbers. -/
theorem isKey_invariant (p : Profile) :
    LayoutInvariant p (fun node _ => node.isKey = true) fun a _ => a.isKey = true where
  primitive _ := rfl
  array {e dims x count} hx hcount := by
    obtain ⟨-, sizes, hsizes, -⟩ := arrayCount_eq_ok hcount
    obtain ⟨rfl, -⟩ := dimensionSizes_eq_ok hsizes
    simp [TypeNode.isKey, hx, Json.isComposite]
  flexible hx _ := hx
  aggregate h := h
  compute {a cap s r} hcap hcomes _ := by
    have htypes : ∀ x ∈ a.members, x.type.isKey = true := by
      refine hcomes.type_mem (D := fun t => t.isKey = true) (fun hfield hplaced => ?_) And.left
      obtain ⟨natural, -, -, rfl⟩ := bitfieldOf_eq_ok hfield
      obtain ⟨w, rfl, -⟩ := Bitfield.placement_eq_none_iff hplaced
      rfl
    have hpack : a.pack.any Json.isComposite = false := by
      obtain ⟨written, hwritten, -⟩ := Aggregate.packCap_eq_ok hcap
      rw [hwritten]
      cases written <;> rfl
    obtain ⟨kind, members, name, pack, attributes, origin⟩ := a
    simpa [Aggregate.isKey, areKeys_eq_all, hpack] using htypes

/-! ## Progress -/

/-- A way to show that computations in a setting return something: `Returns x Q` says that `x`
returns something that satisfies `Q`. -/
structure Progress {m : Type → Type} [Monad m] (S : Setting m) where
  Returns : {α : Type} → m α → (α → Prop) → Prop
  of_pure : ∀ {α : Type} {a : α} {Q : α → Prop}, Q a → Returns (pure a) Q
  bind : ∀ {α β : Type} {x : m α} {f : α → m β} {Q : α → Prop} {R : β → Prop},
    Returns x Q → (∀ a, Q a → Returns (f a) R) → Returns (x >>= f) R
  within : ∀ {α : Type} {name : String} {x : m α} {Q : α → Prop},
    Returns x Q → Returns (S.within name x) Q
  note : ∀ {messages : List String}, Returns (S.note messages) fun _ => True
  fetch : ∀ {a compute}, (TypeNode.aggregate a).isKey = true → Returns compute (fun _ => True) →
    Returns (S.fetch (.aggregate a) compute) fun _ => True

namespace Progress

variable {m : Type → Type} [Monad m] {S : Setting m} (L : Progress S) {p : Profile}
  {cap : Option Int}

/-- A check that succeeds returns. -/
theorem lift {α : Type} {x : Except Failure α} {a : α} {Q : α → Prop} (h : x = .ok a) (ha : Q a) :
    L.Returns (S.lift x) Q := by
  subst h
  exact L.of_pure ha

/-- The extent of a type is found, and the type can be looked up. -/
def Sizes (p : Profile) (node : TypeNode) (_ : Extent) : Prop :=
  node.isKey = true ∧ L.Returns (node.measure S p).extent fun _ => True

/-- The layout of an aggregate is computed, and the aggregate can be looked up. -/
def Lays (p : Profile) (a : Aggregate) (_ : LayoutResult) : Prop :=
  a.isKey = true ∧ L.Returns (a.compute S p) fun _ => True

/-- What the type of a member has nested is looked up. -/
theorem returns_nestedLayout {x : Member} {natural : Extent} {nested : Option LayoutResult}
    (h : Sized (L.Sizes p) (L.Lays p) x.type natural nested)
    (hanonymous : x.name = none → nested.isSome) :
    L.Returns (nestedLayout S (x.measured S p)) fun _ => True := by
  obtain ⟨type, name, attributes⟩ := x
  obtain ⟨-, hnested⟩ := h
  cases type with
  | aggregate a =>
    obtain ⟨r, -, hlays, -⟩ := hnested
    exact L.bind (L.fetch hlays.1 hlays.2) fun _ _ => L.of_pure trivial
  | primitive | array | flexibleArray | bitfield | incomplete | unknown =>
    obtain rfl : nested = none := hnested
    cases name with
    | none => cases hanonymous rfl
    | some name => exact L.of_pure trivial

theorem returns_extent {x : Member} {natural : Extent} {nested : Option LayoutResult}
    (h : Sized (L.Sizes p) (L.Lays p) x.type natural nested) :
    L.Returns (x.measured S p).measure.extent fun _ => True := by
  cases x
  exact h.1.2

theorem returns_placeBitfield {x : Member} {s : StructState} {base : Primitive} {width : Json}
    {field : Bitfield.Field} {cursor : Int} {unit : Option Bitfield.OpenUnit}
    {placed : Bitfield.Placed} (hfield : bitfieldOf p x cap base width = .ok field)
    (hplaced : Bitfield.place p field cursor unit = .ok placed) :
    L.Returns (placeBitfield S p cap s x base width) fun t => t.flexible = s.flexible := by
  obtain ⟨placed', hplaced'⟩ := Bitfield.exists_place hplaced s.cursor s.unit
  unfold placeBitfield
  refine L.bind (L.lift (Q := (· = field)) hfield rfl) ?_
  rintro field rfl
  refine L.bind (L.lift (Q := fun _ => True) hplaced' trivial) fun placed' _ => ?_
  refine L.bind L.note fun _ _ => ?_
  cases placed'.placement <;> exact L.of_pure rfl

theorem returns_placeFlexible {x : Member} {s : StructState} {name : String}
    {natural extent : Extent} (hname : x.name = some name)
    (hsized : Sized (L.Sizes p) (L.Lays p) x.type natural none)
    (hextent : p.memberExtent x cap natural = .ok extent) :
    L.Returns (placeFlexible S p cap s (x.measured S p)) fun t => t.flexible = some name := by
  unfold placeFlexible
  rw [Member.member_measured, hname]
  refine L.bind L.note fun _ _ => ?_
  refine L.bind (L.returns_extent hsized) fun natural' _ => ?_
  obtain ⟨extent', hextent'⟩ := Profile.exists_memberExtent hextent natural'
  exact L.bind (L.lift (Q := fun _ => True) hextent' trivial) fun _ _ => L.of_pure rfl

theorem returns_placeValue {x : Member} {s : StructState} {natural extent : Extent}
    {nested : Option LayoutResult} (hanonymous : x.name = none → nested.isSome)
    (hsized : Sized (L.Sizes p) (L.Lays p) x.type natural nested)
    (hextent : p.memberExtent x cap natural = .ok extent) :
    L.Returns (placeValue S p cap s (x.measured S p)) fun t => t.flexible = s.flexible := by
  unfold placeValue
  rw [Member.member_measured]
  refine L.bind L.note fun _ _ => ?_
  refine L.bind (L.returns_extent hsized) fun natural' _ => ?_
  obtain ⟨extent', hextent'⟩ := Profile.exists_memberExtent hextent natural'
  refine L.bind (L.lift (Q := fun _ => True) hextent' trivial) fun _ _ => ?_
  exact L.bind (L.returns_nestedLayout hsized hanonymous) fun _ _ => L.of_pure rfl

/-- **A step over a struct returns** where it does in another state, if both are open or both have
been ended by the same open-ended array. -/
theorem returns_placeInStruct {x : Member} {s t s' : StructState}
    (h : StructStep p cap (Sized (L.Sizes p) (L.Lays p)) x s t) (hs : s'.flexible = s.flexible) :
    L.Returns (placeInStruct S p cap s' (x.measured S p)) fun t' => t'.flexible = t.flexible := by
  have hopen : s'.flexible = none := by
    rw [hs]
    cases h <;> assumption
  rw [placeInStruct, hopen, Member.member_measured]
  apply L.within
  cases h with
  | skipped type open_ field_eq placed_eq placement =>
    simp only [type, ← hs]
    exact L.returns_placeBitfield field_eq placed_eq
  | bitfield type open_ field_eq placed_eq placement =>
    simp only [type, ← hs]
    exact L.returns_placeBitfield field_eq placed_eq
  | flexible type open_ named sized empty extent_eq offset_eq =>
    simp only [type]
    exact L.returns_placeFlexible named sized extent_eq
  | value type open_ anonymous sized extent_eq offset_eq =>
    have hvalue := L.returns_placeValue (s := s') anonymous sized extent_eq
    rw [hs] at hvalue
    cases htype : x.type with
    | flexibleArray | bitfield =>
      rw [htype] at type
      cases type
    | primitive | aggregate | array | incomplete | unknown => exact hvalue

/-- **A step over a union returns** where it does in another state. -/
theorem returns_placeInUnion {x : Member} {s t : UnionState}
    (h : UnionStep p cap (Sized (L.Sizes p) (L.Lays p)) x s t) (s' : UnionState) :
    L.Returns (placeInUnion S p cap s' (x.measured S p)) fun _ => True := by
  have hbitfield {base : Primitive} {width : Json} {field : Bitfield.Field}
      {placed : Bitfield.Placed} (hfield : bitfieldOf p x cap base width = .ok field)
      (hplaced : Bitfield.place p field 0 none = .ok placed) :
      L.Returns (overlayBitfield S p cap s' x base width) fun _ => True := by
    unfold overlayBitfield
    refine L.bind (L.lift (Q := (· = field)) hfield rfl) ?_
    rintro field rfl
    refine L.bind (L.lift (Q := fun _ => True) hplaced trivial) fun placed' _ => ?_
    refine L.bind L.note fun _ _ => ?_
    cases placed'.placement <;> exact L.of_pure trivial
  rw [placeInUnion, Member.member_measured]
  apply L.within
  cases h with
  | skipped type field_eq placed_eq placement =>
    simp only [type]
    exact hbitfield field_eq placed_eq
  | bitfield type field_eq placed_eq placement =>
    simp only [type]
    exact hbitfield field_eq placed_eq
  | value type anonymous sized extent_eq =>
    have hvalue : L.Returns (overlayValue S p cap s' (x.measured S p)) fun _ => True := by
      unfold overlayValue
      rw [Member.member_measured]
      refine L.bind (L.returns_extent sized) fun natural' _ => ?_
      obtain ⟨extent', hextent'⟩ := Profile.exists_memberExtent extent_eq natural'
      refine L.bind (L.lift (Q := fun _ => True) hextent' trivial) fun _ _ => ?_
      exact L.bind (L.returns_nestedLayout sized anonymous) fun _ _ => L.of_pure trivial
    cases htype : x.type with
    | flexibleArray | bitfield =>
      rw [htype] at type
      cases type
    | primitive | aggregate | array | incomplete | unknown => exact hvalue

/-- **A walk returns** when every step of it does, in all states that are like the ones of another
walk. -/
theorem returns_foldlM {σ : Type} {step : Member → σ → σ → Prop} {place : σ → Measured m → m σ}
    {R : σ → σ → Prop}
    (hstep : ∀ {x s t s'}, step x s t → R s' s → L.Returns (place s' (x.measured S p)) (R · t))
    {members : List Member} {s t s' : σ} (h : Walk step members s t) (hs : R s' s) :
    L.Returns ((measureMembers S p members).foldlM place s') (R · t) := by
  induction members generalizing s s' with
  | nil =>
    obtain rfl : s = t := h
    exact L.of_pure hs
  | cons x xs ih =>
    obtain ⟨u, hu, ht⟩ := h
    rw [measureMembers, List.foldlM_cons]
    exact L.bind (hstep hu hs) fun u' hu' => ih ht hu'

/-- The members of an aggregate are placed where they are in another setting. -/
theorem returns_sequenceMembers {kind : AggregateKind} {members : List Member} {s : Sequenced}
    (h : s.Comes p cap (Sized (L.Sizes p) (L.Lays p)) kind members) :
    L.Returns (sequenceMembers S p cap kind (measureMembers S p members)) fun _ => True := by
  cases h with
  | struct kind_eq walk =>
    subst kind_eq
    refine L.bind (L.returns_foldlM (R := fun s t => s.flexible = t.flexible)
      L.returns_placeInStruct walk rfl) fun s' _ => ?_
    exact L.bind L.note fun _ _ => L.of_pure trivial
  | union kind_eq walk =>
    subst kind_eq
    refine L.bind (L.returns_foldlM (R := fun _ _ => True)
      (fun hstep _ => L.returns_placeInUnion hstep _) walk trivial) fun s' _ => ?_
    exact L.of_pure trivial

end Progress

/-- **Where the plain walk returns, so does the walk in a setting with progress.** -/
theorem progress_invariant {m : Type → Type} [Monad m] {S : Setting m} (L : Progress S)
    (p : Profile) : LayoutInvariant p (L.Sizes p) (L.Lays p) where
  primitive hx := ⟨rfl, L.lift hx trivial⟩
  array {e dims x count} hx hcount := by
    refine ⟨(isKey_invariant p).array (x := x) hx.1 hcount, ?_⟩
    rw [TypeNode.measure]
    refine L.bind (L.lift (Q := fun _ => True) hcount trivial) fun _ _ => ?_
    exact L.bind hx.2 fun _ _ => L.of_pure trivial
  flexible {e x} hx hcheck := by
    refine ⟨hx.1, ?_⟩
    rw [TypeNode.measure]
    refine L.bind (L.lift (Q := fun _ => True) hcheck trivial) fun _ _ => ?_
    exact L.bind hx.2 fun _ _ => L.of_pure trivial
  aggregate hr := ⟨hr.1, L.bind (L.fetch hr.1 hr.2) fun _ _ => L.of_pure trivial⟩
  compute {a cap s r} hcap hcomes hfinish := by
    have hkey := (isKey_invariant p).compute hcap
      (hcomes.mono fun _ _ _ => Sized.mono (fun _ _ h => h.1) fun _ _ h => h.1) hfinish
    refine ⟨hkey, ?_⟩
    obtain ⟨kind, members, name, pack, attributes, origin⟩ := a
    rw [Aggregate.compute, Aggregate.layoutFrom]
    refine L.bind (L.lift (Q := (· = cap)) hcap rfl) ?_
    rintro cap rfl
    refine L.bind (L.returns_sequenceMembers hcomes) fun s' _ => ?_
    obtain ⟨r', hr'⟩ := Aggregate.exists_finish hfinish s'
    exact L.lift hr' trivial

/-! ## Engines -/

namespace Engine

variable {limit : Option Int}

/-- An engine that may keep layouts makes progress. -/
def progress (hlimit : ∀ n ∈ limit, 0 ≤ n) (p : Profile) : Progress (setting p) where
  Returns x Q := ∀ e : Engine, e.Invariant limit (fun _ _ _ => True) →
    ∃ a e', x.run e = (.ok a, e') ∧ e'.Invariant limit (fun _ _ _ => True) ∧ Q a
  of_pure {α a Q} ha e he := ⟨a, e, rfl, he, ha⟩
  bind {α β x f Q R} hx hf e he := by
    obtain ⟨a, e₁, hrun, he₁, ha⟩ := hx e he
    obtain ⟨b, e₂, hrun', he₂, hb⟩ := hf a ha e₁ he₁
    refine ⟨b, e₂, ?_, he₂, hb⟩
    rw [EngineM.run_bind, hrun]
    exact hrun'
  within {α name x Q} hx e he := by
    obtain ⟨a, e', hrun, he', ha⟩ := hx e he
    refine ⟨a, e', ?_, he', ha⟩
    rw [setting, EngineM.run_adapt, hrun]
    rfl
  note {messages} e he := ⟨(), _, rfl, he.writeNotes "bitfields" messages, trivial⟩
  fetch {a compute} hkey hcompute e he := by
    rw [run_fetch]
    have hlooks := looks_serve p (.aggregate a) compute e
    generalize (serve p (.aggregate a) compute).run e = out at hlooks ⊢
    obtain ⟨r, e₁, hrun, he₁, -⟩ := hcompute _ (he.writeNote "cache" (lookupNote "miss" _ p))
    cases hlooks with
    | refused key => exact absurd hkey (Bool.eq_false_iff.mp key)
    | hit found =>
      exact ⟨_, _, rfl, (he.touch (mem_of_find? found).1).writeNote _ _, trivial⟩
    | failed key missed run => cases hrun.symm.trans run
    | overdrawn key missed run overdrawn =>
      obtain ⟨⟨⟩, rfl⟩ := Prod.mk.inj (hrun.symm.trans run)
      have hkept : (e₁.keep (.aggregate a) p r).2.Invariant limit fun _ _ _ => True :=
        he₁.keep trivial
      rw [isOverdrawn, hkept.limit, Option.any_eq_true] at overdrawn
      obtain ⟨n, hn, hneg⟩ := overdrawn
      exact absurd (of_decide_eq_true hneg) (Int.not_lt.mpr (hlimit n hn))
    | kept key missed run drawn =>
      obtain ⟨⟨⟩, rfl⟩ := Prod.mk.inj (hrun.symm.trans run)
      exact ⟨_, _, rfl, he₁.keep trivial, trivial⟩

/-- **An engine answers for every type that lays out**, whatever it was asked before, unless its
limit is negative.  What it answers is the plain layout up to the flags that it shows. -/
theorem exists_layout (hlimit : ∀ n ∈ limit, 0 ≤ n) {p : Profile} {a : Aggregate} {r : LayoutResult}
    (h : layoutOf p (.aggregate a) = .ok r) (channels : Channels) (calls : List Call) :
    ∃ r', ((layout p (.aggregate a)).run ((make channels limit).replay calls)).1 = .ok r' ∧
      r'.canonical = r.canonical := by
  obtain ⟨hkey, hcompute⟩ := (progress_invariant (progress hlimit p) p).of_layoutOf h
  have he := (invariant_replay canonical_keepable
    (fun p => (canonical_invariant p).and (selfKey_invariant p)) channels limit calls).mono
      fun _ _ _ _ => trivial
  obtain ⟨r', e', hrun, -, -⟩ := (progress hlimit p).fetch hkey hcompute _ he
  rw [run_fetch] at hrun
  have hr' : ((layout p (.aggregate a)).run ((make channels limit).replay calls)).1 = .ok r' := by
    rw [run_layout]
    exact Failure.within_eq_ok.mpr (congrArg Prod.fst hrun)
  refine ⟨r', hr', ?_⟩
  -- Both are the plain layout of the canonical type, in canonical form.
  have hplain : layoutOf p (.aggregate a.canonical) = .ok r.canonical :=
    Failure.within_eq_ok.mpr ((canonical_invariant p).of_layoutOf h)
  exact Except.ok.inj ((layout_canonical hr').symm.trans hplain)

/-- A fresh engine without a limit is one that answers for every type that lays out. -/
theorem exists_mayAnswer {p : Profile} {a : Aggregate} {r : LayoutResult}
    (h : layoutOf p (.aggregate a) = .ok r) :
    ∃ r', MayAnswer p a r' ∧ r'.canonical = r.canonical := by
  have hlimit : ∀ n ∈ (none : Option Int), 0 ≤ n := nofun
  obtain ⟨r', hr', hcanonical⟩ := exists_layout hlimit h [] []
  exact ⟨r', ⟨[], none, [], hr'⟩, hcanonical⟩

end Engine

end RecordLayout
