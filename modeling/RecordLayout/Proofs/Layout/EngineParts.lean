import RecordLayout.Proofs.Layout.Agreement
import RecordLayout.Proofs.Layout.EngineWellFormed
import RecordLayout.Proofs.Layout.Lockstep
import RecordLayout.Proofs.TypeTree.Canonical

/-!
# What a computation keeps

The layout of a type is computed out of those of the aggregates inside of it, and these are what the
computation keeps.  An aggregate inside of a type has a smaller canonical type, and types that are
the same key have one canonical type, so that none of them is the same key as the whole.  A look-up
that misses therefore still finds nothing when its computation is over, and keeps what it has
computed.

## Main definitions

* `Engine.HoldsOnly` says of an engine, on both sides of a comparison, that its entries are of some
  class.

## Main results

* `Engine.bisimulation_holdsOnly`: look-ups of some types keep entries for these types only;
* `Engine.mem_or_lt_of_mem_compute`: the computation of a layout keeps layouts of smaller types only;
* `Engine.find?_compute`: what was missed is missed when the layout has been computed;
* `Engine.Invariant.compute_findable`: a type whose layout is computed can be found again.
-/

namespace RecordLayout

/-! ## Canonical types of parts -/

section Sizes

variable {bound : Nat}

theorem TypeNode.sizeOf_canonical_element (e : TypeNode) (dims : List Json) :
    sizeOf e.canonical < sizeOf (TypeNode.array e dims).canonical := by
  simp only [canonical, array.sizeOf_spec]
  omega

theorem TypeNode.sizeOf_canonical_flexible (e : TypeNode) :
    sizeOf e.canonical < sizeOf (TypeNode.flexibleArray e).canonical := by
  simp only [canonical, flexibleArray.sizeOf_spec]
  omega

/-- The canonical type of a member is smaller than that of its aggregate. -/
theorem Aggregate.sizeOf_canonical_member {a : Aggregate} {x : Member} (hx : x ∈ a.members) :
    sizeOf x.type.canonical < sizeOf (TypeNode.aggregate a).canonical := by
  have hmember : sizeOf x.canonical < sizeOf (a.members.map Member.canonical) :=
    List.sizeOf_lt_of_mem (List.mem_map_of_mem hx)
  have htype : sizeOf x.type.canonical < sizeOf x.canonical := by
    cases x
    simp only [Member.canonical, Member.mk.sizeOf_spec]
    omega
  have hmembers : sizeOf (a.members.map Member.canonical) < sizeOf a.canonical := by
    obtain ⟨kind, members, name, pack, attributes, origin⟩ := a
    simp only [Aggregate.canonical, canonicalMembers_eq_map, Aggregate.mk.sizeOf_spec]
    omega
  simp only [TypeNode.canonical, TypeNode.aggregate.sizeOf_spec]
  omega

/-- Types that are not too large, aggregates being smaller still. -/
def Bounded (bound : Nat) (t : TypeNode) : Prop :=
  sizeOf t.canonical ≤ bound ∧ ∀ a, t = .aggregate a → sizeOf t.canonical < bound

theorem bounded_of_lt {t : TypeNode} (h : sizeOf t.canonical < bound) : Bounded bound t :=
  ⟨Nat.le_of_lt h, fun _ _ => h⟩

theorem hereditary_bounded (bound : Nat) : Hereditary (Bounded bound) where
  array h := bounded_of_lt (Nat.lt_of_lt_of_le (TypeNode.sizeOf_canonical_element _ _) h.1)
  flexibleArray h := bounded_of_lt (Nat.lt_of_lt_of_le (TypeNode.sizeOf_canonical_flexible _) h.1)
  aggregate h _ hx := bounded_of_lt (Nat.lt_of_lt_of_le (Aggregate.sizeOf_canonical_member hx) h.1)

end Sizes

namespace Engine

/-! ## What is kept -/

section Kept

variable {e : Engine} {node : TypeNode} {p : Profile}

theorem mem_of_mem_touch {x y : Entry} (hx : x ∈ e.entries) (hy : y ∈ (e.touch x).entries) :
    y ∈ e.entries := by
  rcases List.mem_append.mp hy with hy | hy
  · exact (List.mem_filter.mp hy).1
  · rwa [List.mem_singleton.mp hy]

theorem mem_of_mem_keep {r : LayoutResult} {y : Entry} (hy : y ∈ (e.keep node p r).2.entries) :
    y ∈ e.entries ∨ y.node = node := by
  unfold keep at hy
  cases hfind : e.find? node p with
  | some x =>
    rw [hfind] at hy
    have hy := (withinLimit_sublist _ _).mem hy
    exact .inl (mem_of_mem_touch (mem_of_find? hfind).1 hy)
  | none =>
    rw [hfind] at hy
    have hy := (withinLimit_sublist _ _).mem hy
    rcases List.mem_append.mp hy with hy | hy
    · exact .inl hy
    · exact .inr (by rw [List.mem_singleton.mp hy])

/-- One engine on both sides, all of whose entries satisfy `P`. -/
def HoldsOnly (P : Entry → Prop) (e e' : Engine) : Prop := e' = e ∧ ∀ y ∈ e.entries, P y

/-- **Look-ups of types in a class** keep entries for these types, besides those that are there. -/
theorem bisimulation_holdsOnly (p : Profile) {P : Entry → Prop} {D : TypeNode → Prop}
    (hD : ∀ y : Entry, D y.node → P y) : Bisimulation (.refl p) (HoldsOnly P) D where
  find? {e e'} he node := by
    obtain ⟨rfl, he⟩ := he
    cases hfind : e'.find? node p with
    | none => exact .none
    | some x =>
      have htouch := fun y hy => he y (mem_of_mem_touch (mem_of_find? hfind).1 hy)
      exact .some ⟨rfl, rfl, htouch⟩
  lookupNote {e e'} he outcome node := by
    obtain ⟨rfl, he⟩ := he
    exact ⟨rfl, by rwa [writeNote_entries]⟩
  writeNotes {e e'} he messages := by
    obtain ⟨rfl, he⟩ := he
    exact ⟨rfl, by rwa [writeNotes_entries]⟩
  keep {e e' node r r'} he hnode hr := by
    obtain ⟨rfl, he⟩ := he
    obtain rfl := Comparison.layouts_same.mp hr
    refine ⟨rfl, rfl, fun y hy => ?_⟩
    rcases mem_of_mem_keep hy with hy | rfl
    · exact he y hy
    · exact hD y hnode
  isOverdrawn he := congrArg isOverdrawn he.1

/-- **The computation of a layout keeps layouts of smaller types only.** -/
theorem mem_or_lt_of_mem_compute {y : Entry}
    (hy : y ∈ ((node.measure (setting p) p).compute.run e).2.entries) :
    y ∈ e.entries ∨ sizeOf y.node.canonical < sizeOf node.canonical := by
  let D (t : TypeNode) : Prop := sizeOf t.canonical < sizeOf node.canonical
  have hB : Bisimulation (.refl p) (HoldsOnly fun y => y ∈ e.entries ∨ D y.node) D :=
    bisimulation_holdsOnly p fun _ => .inr
  have hfetched (a : Aggregate) (ha : Bounded (sizeOf node.canonical) (.aggregate a)) :
      a = a ∧ D (.aggregate a) := ⟨rfl, ha.2 a rfl⟩
  have hmeasures (t : TypeNode) (ht : Bounded (sizeOf node.canonical) t) :
      hB.coupling.Measures t t :=
    Coupling.measures_self (C := .refl p) (fun _ => rfl) (hereditary_bounded _) hfetched
      (t.isMeasuredAlike_self p) ht
  have hcompute : hB.coupling.Relates (Comparison.refl p).Layouts
      (node.measure (setting p) p).compute (node.measure (setting p) p).compute := by
    cases node with
    | aggregate a =>
      -- The aggregate itself is not looked up in its own computation, only what its members are.
      refine Coupling.relates_compute_self fun x hx => ?_
      have htype := bounded_of_lt (Aggregate.sizeOf_canonical_member hx)
      exact (hmeasures x.type htype).knows_self (C := .refl p) (fun _ => rfl) hfetched htype
        (x.type.isMeasuredAlike_self p) fun _ _ => rfl
    | primitive | array | flexibleArray | bitfield | incomplete | unknown =>
      exact (hmeasures _ ⟨Nat.le_refl _, nofun⟩).compute
  exact (hcompute e e ⟨rfl, fun _ => .inl⟩).2.2 y hy

/-- **What was missed is missed when it has been computed.** -/
theorem find?_compute (h : e.find? node p = none) :
    ((node.measure (setting p) p).compute.run e).2.find? node p = none := by
  rw [find?, List.find?_eq_none] at h ⊢
  intro y hy hholds
  rcases mem_or_lt_of_mem_compute hy with hy | hlt
  · exact h y hy hholds
  · -- One key has one canonical type, and no type is smaller than itself.
    rw [TypeNode.canonical_eq_of_sameKey y.node node (holds_iff.mp hholds).2] at hlt
    exact Nat.lt_irrefl _ hlt

end Kept

/-! ## Types that can be found again -/

/-- An aggregate can be found under the key that its layout is kept under. -/
def Findable (_ : Profile) (a : Aggregate) (_ : LayoutResult) : Prop := a.sameKey a = true

theorem keepable_findable : Keepable Findable where
  same {_ a b _} h _ := TypeNode.sameKey_self (m := .aggregate a) (n := .aggregate b) h
  self h := h

/-- **A type whose layout is computed can be found again**, so that its layout may be kept. -/
theorem Invariant.compute_findable {limit : Option Int} {e : Engine}
    (he : e.Invariant limit (Keeps Findable)) (p : Profile) (node : TypeNode) :
    ((node.measure (setting p) p).compute.run e).2.Invariant limit (Keeps Findable) ∧
      ∀ r, ((node.measure (setting p) p).compute.run e).1 = .ok r →
        Keeps Findable node p r ∧ node.sameKey node = true := by
  have hserves : (postconditions limit Findable p).Serves p (Findable p) :=
    postconditions_serves keepable_findable
  have hmeasures := Postconditions.measures_node hserves (selfKey_invariant p) node
  obtain ⟨he', hkeeps⟩ := hmeasures.root e he
  refine ⟨he', fun r hr => ⟨⟨(hkeeps r hr).1, (hkeeps r hr).2.1, (hkeeps r hr).2.2⟩, ?_⟩⟩
  exact (hmeasures.root_extent (selfKey_invariant p) e he).2 r hr

end Engine

end RecordLayout
