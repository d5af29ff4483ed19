import RecordLayout.Proofs.Layout.Walk
import RecordLayout.Proofs.Outcome
import RecordLayout.Proofs.TypeTree.Bare

/-!
# Induction on layouts

A property of the layouts of aggregates holds of every layout when it is closed under the walk over
the members: if it holds of the layouts of the aggregate members, it holds of the layout that they
make up.  The induction is on types and is done once, for every setting in which one can reason
about results; a plain layout and the layouts of a caching engine are two cases of it.

An aggregate member is looked up twice, first for its extent and then for its layout.  In a setting
that keeps results the two look-ups are two computations, and it is a law of such a setting
(`Postconditions.Serves`) that they agree on the size and the alignment.

## Main definitions

* `Sized` is what a walk knows of the type of a member;
* `LayoutInvariant` collects the closure properties of a property of layouts.

## Main results

* `Postconditions.measures_node`: the induction principle;
* `LayoutInvariant.of_layoutOf`: its form for plain layouts.
-/

namespace RecordLayout

/-! ## Extents -/

/-- The sizes of dimensions are their numbers, and positive. -/
theorem dimensionSizes_eq_ok {dims : List Json} {sizes : List Int}
    (h : dimensionSizes dims = .ok sizes) : dims = sizes.map Json.int ∧ ∀ n ∈ sizes, 0 < n := by
  induction dims generalizing sizes with
  | nil =>
    cases h
    simp
  | cons d ds ih =>
    cases d with
    | int k =>
      simp only [dimensionSizes] at h
      split at h
      · cases h
      · rename_i hk
        obtain ⟨rest, hds, rfl⟩ := Except.map_eq_ok.mp h
        obtain ⟨rfl, hrest⟩ := ih hds
        rw [List.forall_mem_cons]
        exact ⟨rfl, by omega, hrest⟩
    | null | bool | float | text | array | object => simp [dimensionSizes] at h

theorem foldl_mul_pos {sizes : List Int} (h : ∀ n ∈ sizes, 0 < n) {start : Int} (hs : 0 < start) :
    0 < sizes.foldl (· * ·) start := by
  induction sizes generalizing start with
  | nil => exact hs
  | cons n sizes ih =>
    exact ih (fun k hk => h k (List.mem_cons_of_mem n hk)) (Int.mul_pos hs (h n List.mem_cons_self))

/-- What the number of elements of an array comes from. -/
theorem arrayCount_eq_ok {e : TypeNode} {dims : List Json} {count : Int}
    (h : arrayCount e dims = .ok count) :
    e.memberOnly? = none ∧ ∃ sizes, dimensionSizes dims = .ok sizes ∧
      count = sizes.foldl (· * ·) 1 := by
  unfold arrayCount at h
  cases hd : dims.isEmpty with
  | true => simp [hd] at h
  | false =>
    simp only [hd, Bool.false_eq_true, if_false] at h
    obtain ⟨sizes, hs, h⟩ := Except.bind_eq_ok.mp h
    cases hm : e.memberOnly? with
    | some kind => simp [hm] at h
    | none =>
      simp only [hm, Except.pure_eq_ok] at h
      exact ⟨rfl, sizes, hs, h.symm⟩

/-- An array has at least one element. -/
theorem arrayCount_pos {e : TypeNode} {dims : List Json} {count : Int}
    (h : arrayCount e dims = .ok count) : 0 < count := by
  obtain ⟨-, sizes, hs, rfl⟩ := arrayCount_eq_ok h
  exact foldl_mul_pos (dimensionSizes_eq_ok hs).2 (by decide)

/-- The elements of an open-ended array can stand alone. -/
theorem memberOnly?_of_checkFlexibleElement {e : TypeNode} (h : checkFlexibleElement e = .ok ()) :
    e.memberOnly? = none := by
  unfold checkFlexibleElement at h
  cases hm : e.memberOnly? with
  | some kind => simp [hm] at h
  | none => rfl

/-- A type that can stand alone is no bitfield. -/
theorem ne_bitfield {node : TypeNode} (h : node.memberOnly? = none) (base : Primitive)
    (width : Json) : node ≠ .bitfield base width := by
  rintro rfl
  cases h

/-- What a walk knows of a type whose extent is `x` and whose layout is `nested`, if it has one: `E`
of the extent, and `G` of the layout of an aggregate. -/
def Sized (E : TypeNode → Extent → Prop) (G : Aggregate → LayoutResult → Prop) (node : TypeNode)
    (x : Extent) (nested : Option LayoutResult) : Prop :=
  E node x ∧
    match node with
    | .aggregate a => ∃ r, nested = some r ∧ G a r ∧ x.size = r.size ∧ x.alignment = r.alignment
    | _ => nested = none

/-- Closure of `G`, a property of the layouts of aggregates, and `E`, a property of the extents of
types, under all that a layout is made of. -/
structure LayoutInvariant (p : Profile) (E : TypeNode → Extent → Prop)
    (G : Aggregate → LayoutResult → Prop) : Prop where
  primitive : ∀ {q x}, p.primitiveExtent q = .ok x → E (.primitive q) x
  array : ∀ {e dims x count}, E e x → arrayCount e dims = .ok count →
    E (.array e dims) { size := x.size * count, alignment := x.alignment }
  flexible : ∀ {e x}, E e x → checkFlexibleElement e = .ok () →
    E (.flexibleArray e) { size := 0, alignment := x.alignment }
  aggregate : ∀ {a r}, G a r → E (.aggregate a) r.extent
  compute : ∀ {a cap s r}, a.packCap = .ok cap →
    s.Comes p cap (Sized E G) a.kind a.members → a.finish s = .ok r → G a r

section Sized

variable {p : Profile} {E E' : TypeNode → Extent → Prop} {G G' : Aggregate → LayoutResult → Prop}

theorem Sized.mono (hE : ∀ node x, E node x → E' node x) (hG : ∀ a r, G a r → G' a r)
    {node : TypeNode} {x : Extent} {nested : Option LayoutResult} (h : Sized E G node x nested) :
    Sized E' G' node x nested := by
  refine ⟨hE node x h.1, ?_⟩
  cases node with
  | aggregate a =>
    obtain ⟨r, hr, hgood, hsize⟩ := h.2
    exact ⟨r, hr, hG a r hgood, hsize⟩
  | primitive | array | flexibleArray | bitfield | incomplete | unknown => exact h.2

/-- Only an aggregate has a layout that is nested. -/
theorem Sized.exists_aggregate {node : TypeNode} {x : Extent} {r : LayoutResult}
    (h : Sized E G node x (some r)) :
    ∃ a, node = .aggregate a ∧ G a r ∧ x.size = r.size ∧ x.alignment = r.alignment := by
  obtain ⟨-, hnested⟩ := h
  cases node with
  | aggregate a =>
    obtain ⟨_, ⟨⟩, hgood, hextent⟩ := hnested
    exact ⟨a, rfl, hgood, hextent⟩
  | primitive | array | flexibleArray | bitfield | incomplete | unknown => cases hnested

/-- Two properties that are closed are closed together. -/
theorem LayoutInvariant.and (h : LayoutInvariant p E G) (h' : LayoutInvariant p E' G') :
    LayoutInvariant p (fun node x => E node x ∧ E' node x) fun a r => G a r ∧ G' a r where
  primitive hx := ⟨h.primitive hx, h'.primitive hx⟩
  array hx hcount := ⟨h.array hx.1 hcount, h'.array hx.2 hcount⟩
  flexible hx hcheck := ⟨h.flexible hx.1 hcheck, h'.flexible hx.2 hcheck⟩
  aggregate hr := ⟨h.aggregate hr.1, h'.aggregate hr.2⟩
  compute hcap hcomes hfinish :=
    ⟨h.compute hcap
        (hcomes.mono fun _ _ _ => Sized.mono (fun _ _ h => h.1) fun _ _ h => h.1) hfinish,
      h'.compute hcap
        (hcomes.mono fun _ _ _ => Sized.mono (fun _ _ h => h.2) fun _ _ h => h.2) hfinish⟩

/-- What is closed when an assumption holds is closed as a consequence of it. -/
theorem LayoutInvariant.imp {H : Prop} (h : H → LayoutInvariant p E G) :
    LayoutInvariant p (fun node x => H → E node x) fun a r => H → G a r where
  primitive hx holds := (h holds).primitive hx
  array hx hcount holds := (h holds).array (hx holds) hcount
  flexible hx hcheck holds := (h holds).flexible (hx holds) hcheck
  aggregate hr holds := (h holds).aggregate (hr holds)
  compute hcap hcomes hfinish holds :=
    (h holds).compute hcap
      (hcomes.mono fun _ _ _ => Sized.mono (fun _ _ h => h holds) fun _ _ h => h holds) hfinish

end Sized

/-! ## The induction -/

theorem map_member_measureMembers {m : Type → Type} [Monad m] (S : Setting m) (p : Profile)
    (members : List Member) : (measureMembers S p members).map Measured.member = members := by
  induction members with
  | nil => rfl
  | cons x xs ih => rw [measureMembers, List.map_cons, ih, Member.member_measured]

section Induction

variable {m : Type → Type} [Monad m] {S : Setting m} {p : Profile} {E : TypeNode → Extent → Prop}
  {G : Aggregate → LayoutResult → Prop}

namespace Postconditions

/-- A setting keeps `G` when it looks layouts up, and two look-ups in a row agree. -/
structure Serves (L : Postconditions S) (p : Profile) (G : Aggregate → LayoutResult → Prop) :
    Prop where
  once : ∀ {a}, L.Ensures (a.compute S p) (G a) →
    L.Ensures (S.fetch (.aggregate a) (a.compute S p)) (G a)
  twice : ∀ {a} (make : LayoutResult → Except Failure Extent), L.Ensures (a.compute S p) (G a) →
    L.Ensures
      (S.fetch (.aggregate a) (a.compute S p) >>= fun r =>
        S.lift (make r) >>= fun x =>
          S.fetch (.aggregate a) (a.compute S p) >>= fun r' => pure (r, x, r'))
      fun t => G a t.1 ∧ G a t.2.2 ∧ make t.1 = .ok t.2.1 ∧ t.1.size = t.2.2.size ∧
        t.1.alignment = t.2.2.alignment

/-- What the induction shows of a type.  The extent of a bitfield is only ever looked up as that of
its base type. -/
structure Measures (L : Postconditions S) (p : Profile) (E : TypeNode → Extent → Prop)
    (G : Aggregate → LayoutResult → Prop) (node : TypeNode) : Prop where
  extent : (∀ base width, node ≠ .bitfield base width) →
    L.Ensures (node.measure S p).extent fun x =>
      E node x ∧ ∀ e, node = .flexibleArray e → x.size = 0
  compute : ∀ a, node = .aggregate a → L.Ensures (a.compute S p) (G a)

variable {L : Postconditions S}

theorem Measures.knows [LawfulMonad m] (hS : L.Serves p G) (inv : LayoutInvariant p E G)
    {x : Member} (h : L.Measures p E G x.type) : L.Knows (Sized E G) (x.measured S p) := by
  obtain ⟨type, name, attributes⟩ := x
  refine ⟨fun htype make => ?_, fun e he => ?_⟩
  · by_cases hagg : ∃ a, type = .aggregate a
    · obtain ⟨a, rfl⟩ := hagg
      have ht := hS.twice (fun r => make r.extent) (h.compute a rfl)
      have heq : measureTwice S (Member.measured S p ⟨.aggregate a, name, attributes⟩) make =
          (S.fetch (.aggregate a) (a.compute S p) >>= fun r =>
            S.lift (make r.extent) >>= fun x =>
              S.fetch (.aggregate a) (a.compute S p) >>= fun r' => pure (r, x, r')) >>= fun t =>
            pure (t.1.extent, t.2.1, some t.2.2) := by
        simp only [measureTwice, nestedLayout, Member.measured, TypeNode.measure, bind_assoc,
          pure_bind]
      rw [heq]
      refine L.bind ht fun t ht => L.of_pure ?_
      obtain ⟨hr, hr', hmake, hsize, halign⟩ := ht
      exact ⟨⟨inv.aggregate hr, t.2.2, rfl, hr', hsize, halign⟩, hmake, fun _ => rfl⟩
    · have hnested : nestedLayout S (Member.measured S p ⟨type, name, attributes⟩) =
          if name.isNone then S.fail (.ofCause .unnamedMember) else pure none := by
        cases type with
        | aggregate a => exact absurd ⟨a, rfl⟩ hagg
        | _ => rfl
      refine L.bind (h.extent (ne_bitfield htype)) fun natural hn => ?_
      refine L.bind (L.lift _) fun extent hextent => ?_
      rw [hnested]
      cases name with
      | none => exact L.bind L.fail fun _ (h : False) => h.elim
      | some name =>
        refine L.bind (L.of_pure (Q := fun o => o = none) rfl) ?_
        rintro _ rfl
        refine L.of_pure ⟨⟨hn.1, ?_⟩, hextent, fun h => by cases h⟩
        cases type with
        | aggregate a => exact absurd ⟨a, rfl⟩ hagg
        | _ => rfl
  · simp only [Member.measured] at he
    subst he
    refine L.mono (h.extent (by simp)) fun n hn => ?_
    exact ⟨⟨hn.1, rfl⟩, hn.2 e rfl⟩

variable [LawfulMonad m]

/-- The members of an aggregate are known when their types are measured. -/
theorem knows_measureMembers (hS : L.Serves p G) (inv : LayoutInvariant p E G)
    {members : List Member} (h : ∀ x ∈ members, L.Measures p E G x.type) :
    ∀ y ∈ measureMembers S p members, L.Knows (Sized E G) y := by
  rw [measureMembers_eq_map, List.forall_mem_map]
  exact fun x hx => (h x hx).knows hS inv

theorem ensures_compute (hS : L.Serves p G) (inv : LayoutInvariant p E G)
    {a : Aggregate} (h : ∀ x ∈ a.members, L.Measures p E G x.type) :
    L.Ensures (a.compute S p) (G a) := by
  have hm := knows_measureMembers hS inv h
  obtain ⟨kind, members, name, pack, attributes, origin⟩ := a
  simp only [Aggregate.compute, Aggregate.layoutFrom]
  refine L.bind (L.lift _) fun cap hcap => ?_
  refine L.bind (L.ensures_sequenceMembers hm) fun s hs => ?_
  refine L.mono (L.lift _) fun r hr => inv.compute hcap ?_ hr
  rwa [map_member_measureMembers] at hs

/-- **Induction on layouts**: what is closed under the walk is ensured of every type. -/
theorem measures_node (hS : L.Serves p G) (inv : LayoutInvariant p E G)
    (node : TypeNode) : L.Measures p E G node := by
  induction node using TypeNode.induction with
  | primitive q => exact ⟨fun _ => L.mono (L.lift _) fun x hx => ⟨inv.primitive hx, by simp⟩, nofun⟩
  | array e dims ih =>
    refine ⟨fun _ => ?_, nofun⟩
    simp only [TypeNode.measure]
    refine L.bind (L.lift _) fun count hcount => ?_
    have hmember := (arrayCount_eq_ok hcount).1
    refine L.bind (ih.extent (ne_bitfield hmember)) fun x hx => L.of_pure ⟨?_, nofun⟩
    exact inv.array hx.1 hcount
  | flexibleArray e ih =>
    refine ⟨fun _ => ?_, nofun⟩
    simp only [TypeNode.measure, Measure.failing]
    refine L.bind (L.lift _) fun _ hcheck => ?_
    have hmember := memberOnly?_of_checkFlexibleElement hcheck
    refine L.bind (ih.extent (ne_bitfield hmember)) fun x hx => L.of_pure ?_
    exact ⟨inv.flexible hx.1 hcheck, fun _ _ => rfl⟩
  | bitfield base width => exact ⟨fun h => absurd rfl (h base width), nofun⟩
  | incomplete label => exact ⟨fun _ => L.fail, nofun⟩
  | unknown kind => exact ⟨fun _ => L.fail, nofun⟩
  | aggregate a ih =>
    have ha := ensures_compute hS inv ih
    refine ⟨fun _ => ?_, fun b hb => ?_⟩
    · simp only [TypeNode.measure]
      exact L.bind (hS.once ha) fun r hr => L.of_pure ⟨inv.aggregate hr, nofun⟩
    · cases hb
      exact ha

/-- What the induction shows of the layout of a type: only that of an aggregate has members, and an
incomplete type has none. -/
theorem Measures.root {node : TypeNode} (h : L.Measures p E G node) :
    L.Ensures (node.measure S p).compute fun r =>
      (∀ a, node = .aggregate a → G a r) ∧ ((∀ a, node ≠ .aggregate a) → r.members = []) ∧
        ∀ label, node ≠ .incomplete label := by
  cases node with
  | aggregate a =>
    refine L.mono (h.compute a rfl) fun r hr =>
      ⟨fun b hb => ?_, fun hnode => absurd rfl (hnode a), nofun⟩
    exact TypeNode.aggregate.inj hb ▸ hr
  | primitive | array =>
    exact L.bind (h.extent (by simp)) fun x _ => L.of_pure ⟨nofun, fun _ => rfl, nofun⟩
  | flexibleArray | bitfield | incomplete | unknown => exact L.fail

/-- What the induction shows of the extents of types holds of what their layouts are given by. -/
theorem Measures.root_extent (inv : LayoutInvariant p E G) {node : TypeNode}
    (h : L.Measures p E G node) :
    L.Ensures (node.measure S p).compute fun r => E node r.extent := by
  cases node with
  | aggregate a => exact L.mono (h.compute a rfl) fun r hr => inv.aggregate hr
  | primitive | array => exact L.bind (h.extent (by simp)) fun x hx => L.of_pure hx.1
  | flexibleArray | bitfield | incomplete | unknown => exact L.fail

end Postconditions

end Induction

/-! ## Plain layouts -/

/-- Postconditions of plain results. -/
def Postconditions.plain : Postconditions Setting.pure where
  Ensures x Q := ∀ a, x = .ok a → Q a
  of_pure := by
    rintro α a Q h _ ⟨⟩
    exact h
  bind hx hf b hb := by
    obtain ⟨a, ha, hb⟩ := Except.bind_eq_ok.mp hb
    exact hf a (hx a ha) b hb
  fail := by
    rintro α f Q a ⟨⟩
  within hx a ha := hx a (Failure.within_eq_ok.mp ha)
  note _ _ := trivial

/-- Plain look-ups compute the same layout twice. -/
theorem Postconditions.plain_serves (p : Profile) (G : Aggregate → LayoutResult → Prop) :
    Postconditions.plain.Serves p G where
  once h := h
  twice {a} make h := by
    rintro t ht
    obtain ⟨r, hr, ht⟩ := Except.bind_eq_ok.mp ht
    obtain ⟨x, hx, ht⟩ := Except.bind_eq_ok.mp ht
    obtain ⟨r', hr', ht⟩ := Except.bind_eq_ok.mp ht
    obtain rfl := Except.pure_eq_ok.mp ht
    obtain rfl : r = r' := Except.ok.inj (hr.symm.trans hr')
    exact ⟨h r hr, h r hr, by rwa [Setting.pure_lift] at hx, rfl, rfl⟩

/-- What a plain walk knows of a type: its extent is the one that is measured. -/
def SizedPlainly (p : Profile) (E : TypeNode → Extent → Prop) (G : Aggregate → LayoutResult → Prop)
    (node : TypeNode) (x : Extent) (nested : Option LayoutResult) : Prop :=
  Sized E G node x nested ∧ (node.measure Setting.pure p).extent = .ok x

/-- What is known of a member in a plain walk is known of the extent of its type. -/
theorem Postconditions.Knows.plainly {p : Profile} {E : TypeNode → Extent → Prop}
    {G : Aggregate → LayoutResult → Prop} {x : Member}
    (h : Postconditions.plain.Knows (Sized E G) (x.measured Setting.pure p)) :
    Postconditions.plain.Knows (SizedPlainly p E G) (x.measured Setting.pure p) := by
  obtain ⟨type, name, attributes⟩ := x
  refine ⟨fun htype make t ht => ?_, fun e he natural hnatural => ?_⟩
  · obtain ⟨hknown, hmake, hanonymous⟩ := h.value htype make t ht
    refine ⟨⟨hknown, ?_⟩, hmake, hanonymous⟩
    unfold measureTwice at ht
    obtain ⟨natural, hnatural, ht⟩ := Except.bind_eq_ok.mp ht
    obtain ⟨extent, -, ht⟩ := Except.bind_eq_ok.mp ht
    obtain ⟨nested, -, ht⟩ := Except.bind_eq_ok.mp ht
    obtain rfl := Except.pure_eq_ok.mp ht
    exact hnatural
  · obtain ⟨hknown, hempty⟩ := h.flexible e he natural hnatural
    exact ⟨⟨hknown, hnatural⟩, hempty⟩

section Plain

variable {p : Profile} {E : TypeNode → Extent → Prop} {G : Aggregate → LayoutResult → Prop}
  (inv : LayoutInvariant p E G)

include inv

/-- **A property that is closed under the walk holds of every plain layout.** -/
theorem LayoutInvariant.of_layoutOf {a : Aggregate} {r : LayoutResult}
    (h : layoutOf p (.aggregate a) = .ok r) : G a r :=
  have hmeasures := Postconditions.measures_node (Postconditions.plain_serves p G) inv (.aggregate a)
  hmeasures.compute a rfl r (Failure.within_eq_ok.mp h)

/-- It holds of the extents of all types but bitfields. -/
theorem LayoutInvariant.of_extent {node : TypeNode}
    (hnode : ∀ base width, node ≠ .bitfield base width) {natural : Extent}
    (h : (node.measure Setting.pure p).extent = .ok natural) : E node natural :=
  have hmeasures := Postconditions.measures_node (Postconditions.plain_serves p G) inv node
  (hmeasures.extent hnode natural h).1

/-- What a plain walk knows of the members that it is to place. -/
theorem LayoutInvariant.knows_plainly (members : List Member) :
    ∀ y ∈ measureMembers Setting.pure p members,
      Postconditions.plain.Knows (SizedPlainly p E G) y := by
  intro y hy
  have hserves := Postconditions.plain_serves p G
  have hknown := Postconditions.knows_measureMembers hserves inv
    (fun x _ => Postconditions.measures_node hserves inv x.type) y hy
  rw [measureMembers_eq_map] at hy
  obtain ⟨x, -, rfl⟩ := List.mem_map.mp hy
  exact hknown.plainly

/-- A plain walk over members is one of the walks described. -/
theorem LayoutInvariant.comes_plainly {cap : Option Int} {kind : AggregateKind}
    {members : List Member} {s : Sequenced}
    (h : sequenceMembers Setting.pure p cap kind (measureMembers Setting.pure p members) = .ok s) :
    s.Comes p cap (SizedPlainly p E G) kind members := by
  have hcomes := Postconditions.plain.ensures_sequenceMembers (inv.knows_plainly members) s h
  rwa [map_member_measureMembers] at hcomes

theorem LayoutInvariant.comes {cap : Option Int} {kind : AggregateKind} {members : List Member}
    {s : Sequenced}
    (h : sequenceMembers Setting.pure p cap kind (measureMembers Setting.pure p members) = .ok s) :
    s.Comes p cap (Sized E G) kind members :=
  (inv.comes_plainly h).mono fun _ _ _ hsized => hsized.1

/-- A plain step over a struct is one of the steps described. -/
theorem LayoutInvariant.step_struct {cap : Option Int} {x : Member} {s t : StructState}
    (h : placeInStruct Setting.pure p cap s (x.measured Setting.pure p) = .ok t) :
    StructStep p cap (Sized E G) x s t := by
  have hknows := inv.knows_plainly [x] (x.measured Setting.pure p) List.mem_cons_self
  have hstep := Postconditions.plain.ensures_placeInStruct hknows t h
  rw [Member.member_measured] at hstep
  exact hstep.mono fun _ _ _ hsized => hsized.1

/-- A plain step over a union is one of the steps described. -/
theorem LayoutInvariant.step_union {cap : Option Int} {x : Member} {s t : UnionState}
    (h : placeInUnion Setting.pure p cap s (x.measured Setting.pure p) = .ok t) :
    UnionStep p cap (Sized E G) x s t := by
  have hknows := inv.knows_plainly [x] (x.measured Setting.pure p) List.mem_cons_self
  have hstep := Postconditions.plain.ensures_placeInUnion hknows t h
  rw [Member.member_measured] at hstep
  exact hstep.mono fun _ _ _ hsized => hsized.1

/-- A plain walk from any state of a struct on is one of the walks described. -/
theorem LayoutInvariant.walk_struct {cap : Option Int} {members : List Member} {s t : StructState}
    (h : (measureMembers Setting.pure p members).foldlM (placeInStruct Setting.pure p cap) s =
      .ok t) : Walk (StructStep p cap (Sized E G)) members s t := by
  induction members generalizing s with
  | nil => exact Except.pure_eq_ok.mp h
  | cons x xs ih =>
    rw [measureMembers, List.foldlM_cons] at h
    obtain ⟨u, hu, h⟩ := Except.bind_eq_ok.mp h
    exact ⟨u, inv.step_struct hu, ih h⟩

/-- A plain walk from any state of a union on is one of the walks described. -/
theorem LayoutInvariant.walk_union {cap : Option Int} {members : List Member} {s t : UnionState}
    (h : (measureMembers Setting.pure p members).foldlM (placeInUnion Setting.pure p cap) s =
      .ok t) : Walk (UnionStep p cap (Sized E G)) members s t := by
  induction members generalizing s with
  | nil => exact Except.pure_eq_ok.mp h
  | cons x xs ih =>
    rw [measureMembers, List.foldlM_cons] at h
    obtain ⟨u, hu, h⟩ := Except.bind_eq_ok.mp h
    exact ⟨u, inv.step_union hu, ih h⟩

end Plain

/-! ### Ends of walks -/

/-- The storage of the members of a struct that no more members follow: a unit that is open still
takes up its storage. -/
def StructState.close (p : Profile) (s : StructState) : Sequenced where
  slots := s.slots
  endOffset := (Bitfield.flush p s.cursor s.unit).cursor
  alignment := s.alignment

/-- The storage of the members of a union that no more members follow. -/
def UnionState.close (s : UnionState) : Sequenced :=
  ⟨s.slots, s.endOffset, s.alignment, s.endIsFlag⟩

theorem sequenceStruct_eq (p : Profile) (cap : Option Int) (xs : List (Measured (Except Failure))) :
    sequenceStruct Setting.pure p cap xs =
      (xs.foldlM (placeInStruct Setting.pure p cap) .start).map (StructState.close p) := by
  unfold sequenceStruct
  cases xs.foldlM (placeInStruct Setting.pure p cap) .start <;> rfl

theorem sequenceUnion_eq (p : Profile) (cap : Option Int) (xs : List (Measured (Except Failure))) :
    sequenceUnion Setting.pure p cap xs =
      (xs.foldlM (placeInUnion Setting.pure p cap) .start).map UnionState.close := by
  unfold sequenceUnion
  cases xs.foldlM (placeInUnion Setting.pure p cap) .start <;> rfl

/-- **The layout of an aggregate** is that of its members under the cap of its pack. -/
theorem Aggregate.layoutOf_eq (p : Profile) (a : Aggregate) :
    layoutOf p (.aggregate a) = Failure.within (a.name.getD "") (do
      let cap ← a.packCap
      let s ← sequenceMembers Setting.pure p cap a.kind (measureMembers Setting.pure p a.members)
      a.finish s) := by
  obtain ⟨kind, members, name, pack, attributes, origin⟩ := a
  simp only [layoutOf, TypeNode.measure, compute, layoutFrom, Setting.pure_lift]
  rfl

end RecordLayout
