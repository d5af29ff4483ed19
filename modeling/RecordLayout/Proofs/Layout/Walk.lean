import RecordLayout.Layout.Sequence
import RecordLayout.Proofs.Outcome

/-!
# What a walk over members can do

The walk over the members of an aggregate runs in any setting, and knows the types of the members
only through their measures.  This module says once what each of its steps can do, as relations
between the states before and after (`StructStep`, `UnionStep`), for every setting in which one can
reason about results (`Postconditions`).

A member is measured for its extent and then, if it is an aggregate, looked up again for its layout.
The two belong together, so what is known of a member is known of both at once
(`Postconditions.Knows`).

## Main definitions

* `Postconditions` is a way to reason about the results of computations in a setting;
* `StructStep` and `UnionStep` relate the states before and after a member is placed;
* `Walk` relates the states before and after a list of members, `Sequenced.Comes` the members of an
  aggregate and their storage.

## Main results

* `Walk.snoc_induction`: what every step keeps holds at the end;
* `Postconditions.ensures_sequenceMembers`: a walk in any setting is one of the walks described.
-/

namespace RecordLayout

/-! ## Postconditions -/

/-- A way to reason about computations in a setting: `Ensures x Q` says that what `x` returns
satisfies `Q`.  A failure returns nothing, so it ensures everything. -/
structure Postconditions {m : Type → Type} [Monad m] (S : Setting m) where
  Ensures : {α : Type} → m α → (α → Prop) → Prop
  of_pure : ∀ {α : Type} {a : α} {Q : α → Prop}, Q a → Ensures (pure a) Q
  bind : ∀ {α β : Type} {x : m α} {f : α → m β} {Q : α → Prop} {R : β → Prop},
    Ensures x Q → (∀ a, Q a → Ensures (f a) R) → Ensures (x >>= f) R
  fail : ∀ {α : Type} {f : Failure} {Q : α → Prop}, Ensures (S.fail f) Q
  within : ∀ {α : Type} {name : String} {x : m α} {Q : α → Prop},
    Ensures x Q → Ensures (S.within name x) Q
  note : ∀ {messages : List String}, Ensures (S.note messages) fun _ => True

/-- A walk over a list, where `step` relates the states before and after one item. -/
def Walk {β σ : Type} (step : β → σ → σ → Prop) : List β → σ → σ → Prop
  | [], s, t => s = t
  | x :: xs, s, t => ∃ u, step x s u ∧ Walk step xs u t

namespace Walk

variable {β σ : Type} {step : β → σ → σ → Prop}

/-- **Induction along a walk**: a property of the items so far and the state that holds at the start
and is kept by every step holds at the end. -/
theorem snoc_induction {motive : List β → σ → Prop} {xs : List β} {s t : σ} (h : Walk step xs s t)
    (nil : motive [] s)
    (snoc : ∀ pre x u v, x ∈ xs → motive pre u → step x u v → motive (pre ++ [x]) v) :
    motive xs t := by
  have go : ∀ (ys pre : List β) (u : σ), (∀ y ∈ ys, y ∈ xs) → motive pre u →
      Walk step ys u t → motive (pre ++ ys) t := by
    intro ys
    induction ys with
    | nil =>
      rintro pre u - hu rfl
      simpa using hu
    | cons y ys ih =>
      rintro pre u hys hu ⟨v, hv, ht⟩
      have hy := snoc pre y u v (hys y List.mem_cons_self) hu hv
      simpa using ih (pre ++ [y]) v (fun z hz => hys z (List.mem_cons_of_mem y hz)) hy ht
  exact go xs [] s (fun _ h => h) nil h

/-- What every step shows of its item holds of all items. -/
theorem forall_mem {P : β → Prop} (hstep : ∀ x s t, step x s t → P x) {xs : List β} {s t : σ}
    (h : Walk step xs s t) : ∀ x ∈ xs, P x := by
  induction xs generalizing s with
  | nil => simp
  | cons x xs ih =>
    obtain ⟨u, hu, ht⟩ := h
    rw [List.forall_mem_cons]
    exact ⟨hstep x s u hu, ih ht⟩

theorem mono {step' : β → σ → σ → Prop} (hstep : ∀ x s t, step x s t → step' x s t) {xs : List β}
    {s t : σ} (h : Walk step xs s t) : Walk step' xs s t := by
  induction xs generalizing s with
  | nil => exact h
  | cons x xs ih =>
    obtain ⟨u, hu, ht⟩ := h
    exact ⟨u, hstep x s u hu, ih ht⟩

end Walk

namespace Postconditions

variable {m : Type → Type} [Monad m] {S : Setting m} (L : Postconditions S)

theorem lift {α : Type} (x : Except Failure α) : L.Ensures (S.lift x) fun a => x = .ok a := by
  cases x with
  | ok a => exact L.of_pure rfl
  | error f => exact L.fail

theorem mono [LawfulMonad m] {α : Type} {x : m α} {Q R : α → Prop} (h : L.Ensures x Q)
    (hQ : ∀ a, Q a → R a) : L.Ensures x R := by
  rw [← bind_pure x]
  exact L.bind h fun a ha => L.of_pure (hQ a ha)

theorem foldlM [LawfulMonad m] {β γ σ : Type} {f : σ → γ → m σ} (view : γ → β)
    {step : β → σ → σ → Prop} {xs : List γ}
    (h : ∀ x ∈ xs, ∀ s, L.Ensures (f s x) (step (view x) s)) (s : σ) :
    L.Ensures (xs.foldlM f s) (Walk step (xs.map view) s) := by
  induction xs generalizing s with
  | nil => exact L.of_pure rfl
  | cons x xs ih =>
    rw [List.foldlM_cons, ← bind_pure (f s x >>= fun u => xs.foldlM f u), bind_assoc]
    refine L.bind (h x List.mem_cons_self s) fun u hu => ?_
    refine L.bind (ih (fun y hy => h y (List.mem_cons_of_mem x hy)) u) fun t ht => ?_
    exact L.of_pure ⟨u, hu, ht⟩

end Postconditions

/-! ## Steps -/

/-- The field of a bitfield member takes its extent from the base type, under the cap of the
member. -/
theorem bitfieldOf_eq_ok {p : Profile} {x : Member} {cap : Option Int} {base : Primitive}
    {width : Json} {field : Bitfield.Field} (h : bitfieldOf p x cap base width = .ok field) :
    ∃ natural, x.attributes.requested? = none ∧ p.primitiveExtent base = .ok natural ∧
      field = ⟨x.name, base, natural.capped (x.cap cap), natural.alignment, width⟩ := by
  unfold bitfieldOf at h
  cases hr : x.attributes.requested? with
  | some requested => simp [hr] at h
  | none =>
    simp only [hr, Option.isSome_none, Bool.false_eq_true, if_false] at h
    obtain ⟨natural, hn, h⟩ := Except.bind_eq_ok.mp h
    exact ⟨natural, rfl, hn, (Except.pure_eq_ok.mp h).symm⟩

section Steps

variable (p : Profile) (cap : Option Int) (K : TypeNode → Extent → Option LayoutResult → Prop)

/-- What placing a member in a struct can do to the state. -/
inductive StructStep (x : Member) (s : StructState) : StructState → Prop
  /-- A bitfield of width zero takes no storage. -/
  | skipped {base : Primitive} {width : Json} {field : Bitfield.Field} {placed : Bitfield.Placed}
      (type : x.type = .bitfield base width) (open_ : s.flexible = none)
      (field_eq : bitfieldOf p x cap base width = .ok field)
      (placed_eq : Bitfield.place p field s.cursor s.unit = .ok placed)
      (placement : placed.placement = none) :
      StructStep x s
        { s with count := s.count + 1, cursor := placed.cursor, unit := placed.unit }
  | bitfield {base : Primitive} {width : Json} {field : Bitfield.Field} {placed : Bitfield.Placed}
      {place : Bitfield.Placement}
      (type : x.type = .bitfield base width) (open_ : s.flexible = none)
      (field_eq : bitfieldOf p x cap base width = .ok field)
      (placed_eq : Bitfield.place p field s.cursor s.unit = .ok placed)
      (placement : placed.placement = some place) :
      StructStep x s
        { s with
          slots := s.slots ++ [bitfieldSlot x place]
          count := s.count + 1
          cursor := placed.cursor
          alignment := raisedBy p x place s.alignment
          unit := placed.unit }
  | flexible {element : TypeNode} {name : String} {natural extent : Extent} {offset : Int}
      (type : x.type = .flexibleArray element) (open_ : s.flexible = none)
      (named : x.name = some name) (sized : K x.type natural none) (empty : natural.size = 0)
      (extent_eq : p.memberExtent x cap natural = .ok extent)
      (offset_eq :
        offset = Number.roundUp (Bitfield.flush p s.cursor s.unit).cursor extent.alignment) :
      StructStep x s
        { s with
          slots := s.slots ++
            [valueSlot x s.count offset (offset - (Bitfield.flush p s.cursor s.unit).cursor) extent
              none]
          count := s.count + 1
          cursor := offset
          alignment := max s.alignment extent.alignment
          flexible := some name
          unit := none }
  | value {natural extent : Extent} {nested : Option LayoutResult} {offset : Int}
      (type : x.type.memberOnly? = none) (open_ : s.flexible = none)
      (anonymous : x.name = none → nested.isSome) (sized : K x.type natural nested)
      (extent_eq : p.memberExtent x cap natural = .ok extent)
      (offset_eq :
        offset = Number.roundUp (Bitfield.flush p s.cursor s.unit).cursor extent.alignment) :
      StructStep x s
        { s with
          slots := s.slots ++
            [valueSlot x s.count offset (offset - (Bitfield.flush p s.cursor s.unit).cursor) extent
              nested]
          count := s.count + 1
          cursor := offset + extent.size
          alignment := max s.alignment extent.alignment
          unit := none }

/-- What placing a member in a union can do to the state. -/
inductive UnionStep (x : Member) (s : UnionState) : UnionState → Prop
  /-- A bitfield of width zero takes no storage. -/
  | skipped {base : Primitive} {width : Json} {field : Bitfield.Field} {placed : Bitfield.Placed}
      (type : x.type = .bitfield base width)
      (field_eq : bitfieldOf p x cap base width = .ok field)
      (placed_eq : Bitfield.place p field 0 none = .ok placed)
      (placement : placed.placement = none) :
      UnionStep x s { s with count := s.count + 1 }
  | bitfield {base : Primitive} {width : Json} {field : Bitfield.Field} {placed : Bitfield.Placed}
      {place : Bitfield.Placement}
      (type : x.type = .bitfield base width)
      (field_eq : bitfieldOf p x cap base width = .ok field)
      (placed_eq : Bitfield.place p field 0 none = .ok placed)
      (placement : placed.placement = some place) :
      UnionStep x s
        { s.reaching place.unitSize place.sizeIsFlag with
          slots := s.slots ++ [bitfieldSlot x place]
          count := s.count + 1
          alignment := raisedBy p x place s.alignment }
  | value {natural extent : Extent} {nested : Option LayoutResult}
      (type : x.type.memberOnly? = none)
      (anonymous : x.name = none → nested.isSome) (sized : K x.type natural nested)
      (extent_eq : p.memberExtent x cap natural = .ok extent) :
      UnionStep x s
        { s.reaching extent.size extent.sizeIsFlag with
          slots := s.slots ++ [valueSlot x s.count 0 0 extent nested]
          count := s.count + 1
          alignment := max s.alignment extent.alignment }

/-- The storage of the members of an aggregate, as a walk over them may find it. -/
inductive Sequenced.Comes (kind : AggregateKind) (members : List Member) : Sequenced → Prop
  | struct {s : StructState} (kind_eq : kind = .struct)
      (walk : Walk (StructStep p cap K) members .start s) :
      Comes kind members
        { slots := s.slots
          endOffset := (Bitfield.flush p s.cursor s.unit).cursor
          alignment := s.alignment }
  | union {s : UnionState} (kind_eq : kind = .union)
      (walk : Walk (UnionStep p cap K) members .start s) :
      Comes kind members ⟨s.slots, s.endOffset, s.alignment, s.endIsFlag⟩

end Steps

section Mono

variable {p : Profile} {cap : Option Int} {K K' : TypeNode → Extent → Option LayoutResult → Prop}

theorem StructStep.mono (hK : ∀ node x nested, K node x nested → K' node x nested) {x : Member}
    {s t : StructState} (h : StructStep p cap K x s t) : StructStep p cap K' x s t := by
  cases h with
  | skipped type open_ field_eq placed_eq placement =>
    exact .skipped type open_ field_eq placed_eq placement
  | bitfield type open_ field_eq placed_eq placement =>
    exact .bitfield type open_ field_eq placed_eq placement
  | flexible type open_ named sized empty extent_eq offset_eq =>
    exact .flexible type open_ named (hK _ _ _ sized) empty extent_eq offset_eq
  | value type open_ anonymous sized extent_eq offset_eq =>
    exact .value type open_ anonymous (hK _ _ _ sized) extent_eq offset_eq

theorem UnionStep.mono (hK : ∀ node x nested, K node x nested → K' node x nested) {x : Member}
    {s t : UnionState} (h : UnionStep p cap K x s t) : UnionStep p cap K' x s t := by
  cases h with
  | skipped type field_eq placed_eq placement => exact .skipped type field_eq placed_eq placement
  | bitfield type field_eq placed_eq placement => exact .bitfield type field_eq placed_eq placement
  | value type anonymous sized extent_eq => exact .value type anonymous (hK _ _ _ sized) extent_eq

/-- Knowing less of the members leaves more walks. -/
theorem Sequenced.Comes.mono (hK : ∀ node x nested, K node x nested → K' node x nested)
    {kind : AggregateKind} {members : List Member} {s : Sequenced}
    (h : s.Comes p cap K kind members) : s.Comes p cap K' kind members := by
  cases h with
  | struct kind_eq walk => exact .struct kind_eq (walk.mono fun _ _ _ => StructStep.mono hK)
  | union kind_eq walk => exact .union kind_eq (walk.mono fun _ _ _ => UnionStep.mono hK)

/-- The type of a member that is placed in a struct belongs to a class of types that has the known
types and all bitfields that can be placed. -/
theorem StructStep.type_mem {D : TypeNode → Prop} {x : Member} {s t : StructState}
    (hbitfield : ∀ {base width field cursor unit placed},
      bitfieldOf p x cap base width = .ok field →
      Bitfield.place p field cursor unit = .ok placed → D (.bitfield base width))
    (hknown : ∀ {natural nested}, K x.type natural nested → D x.type)
    (h : StructStep p cap K x s t) : D x.type := by
  cases h with
  | skipped type open_ field_eq placed_eq placement =>
    rw [type]
    exact hbitfield field_eq placed_eq
  | bitfield type open_ field_eq placed_eq placement =>
    rw [type]
    exact hbitfield field_eq placed_eq
  | flexible type open_ named sized empty extent_eq offset_eq => exact hknown sized
  | value type open_ anonymous sized extent_eq offset_eq => exact hknown sized

/-- The type of a member that is placed in a union belongs to such a class, too. -/
theorem UnionStep.type_mem {D : TypeNode → Prop} {x : Member} {s t : UnionState}
    (hbitfield : ∀ {base width field cursor unit placed},
      bitfieldOf p x cap base width = .ok field →
      Bitfield.place p field cursor unit = .ok placed → D (.bitfield base width))
    (hknown : ∀ {natural nested}, K x.type natural nested → D x.type)
    (h : UnionStep p cap K x s t) : D x.type := by
  cases h with
  | skipped type field_eq placed_eq placement =>
    rw [type]
    exact hbitfield field_eq placed_eq
  | bitfield type field_eq placed_eq placement =>
    rw [type]
    exact hbitfield field_eq placed_eq
  | value type anonymous sized extent_eq => exact hknown sized

/-- **The types of placed members** belong to every class that has the known types and all bitfields
that can be placed. -/
theorem Sequenced.Comes.type_mem {D : TypeNode → Prop}
    (hbitfield : ∀ {x base width field cursor unit placed},
      bitfieldOf p x cap base width = .ok field →
      Bitfield.place p field cursor unit = .ok placed → D (.bitfield base width))
    (hknown : ∀ {node natural nested}, K node natural nested → D node)
    {kind : AggregateKind} {members : List Member} {s : Sequenced}
    (h : s.Comes p cap K kind members) : ∀ x ∈ members, D x.type := by
  cases h with
  | struct kind_eq walk =>
    exact walk.forall_mem fun _ _ _ hstep => hstep.type_mem hbitfield hknown
  | union kind_eq walk =>
    exact walk.forall_mem fun _ _ _ hstep => hstep.type_mem hbitfield hknown

end Mono

/-! ## Walks in a setting -/

section Walks

variable {m : Type → Type} [Monad m] {S : Setting m} {p : Profile} {cap : Option Int}
  {K : TypeNode → Extent → Option LayoutResult → Prop}

/-- The extent of a member, what is made of it, and the layout of the member's own type. -/
def measureTwice (S : Setting m) (x : Measured m) (make : Extent → Except Failure Extent) :
    m (Extent × Extent × Option LayoutResult) := do
  let natural ← x.measure.extent
  let extent ← S.lift (make natural)
  let nested ← nestedLayout S x
  return (natural, extent, nested)

namespace Postconditions

/-- What is known of a measured member: `K` of its extent and its layout. -/
structure Knows (L : Postconditions S) (K : TypeNode → Extent → Option LayoutResult → Prop)
    (x : Measured m) : Prop where
  value : x.member.type.memberOnly? = none → ∀ make,
    L.Ensures (measureTwice S x make) fun t =>
      K x.member.type t.1 t.2.2 ∧ make t.1 = .ok t.2.1 ∧ (x.member.name = none → t.2.2.isSome)
  flexible : ∀ e, x.member.type = .flexibleArray e →
    L.Ensures x.measure.extent fun n => K x.member.type n none ∧ n.size = 0

variable (L : Postconditions S)

theorem ensures_placeBitfield {s : StructState} {x : Member} {base : Primitive} {width : Json}
    (type : x.type = .bitfield base width) (open_ : s.flexible = none) :
    L.Ensures (placeBitfield S p cap s x base width) (StructStep p cap K x s) := by
  unfold placeBitfield
  refine L.bind (L.lift _) fun field hf => ?_
  refine L.bind (L.lift _) fun placed hp => ?_
  refine L.bind L.note fun _ _ => ?_
  cases h : placed.placement with
  | none => exact L.of_pure (.skipped type open_ hf hp h)
  | some place => exact L.of_pure (.bitfield type open_ hf hp h)

theorem ensures_placeFlexible {s : StructState} {x : Measured m} {e : TypeNode}
    (hx : L.Knows K x) (type : x.member.type = .flexibleArray e) (open_ : s.flexible = none) :
    L.Ensures (placeFlexible S p cap s x) (StructStep p cap K x.member s) := by
  unfold placeFlexible
  refine L.bind L.note fun _ _ => ?_
  refine L.bind (hx.flexible e type) fun natural hn => ?_
  refine L.bind (L.lift _) fun extent he => ?_
  cases h : x.member.name with
  | none => exact L.fail
  | some name => exact L.of_pure (.flexible type open_ h hn.1 hn.2 he rfl)

theorem ensures_placeValue [LawfulMonad m] {s : StructState} {x : Measured m}
    (hx : L.Knows K x) (type : x.member.type.memberOnly? = none) (open_ : s.flexible = none) :
    L.Ensures (placeValue S p cap s x) (StructStep p cap K x.member s) := by
  have h : placeValue S p cap s x =
      (S.note (Bitfield.flush p s.cursor s.unit).notes >>= fun _ =>
        measureTwice S x (p.memberExtent x.member cap) >>= fun t =>
          let flushed := Bitfield.flush p s.cursor s.unit
          let offset := Number.roundUp flushed.cursor t.2.1.alignment
          pure { s with
            slots := s.slots ++
              [valueSlot x.member s.count offset (offset - flushed.cursor) t.2.1 t.2.2]
            count := s.count + 1
            cursor := offset + t.2.1.size
            alignment := max s.alignment t.2.1.alignment
            unit := none }) := by
    simp only [placeValue, measureTwice, bind_assoc, pure_bind]
  rw [h]
  refine L.bind L.note fun _ _ => ?_
  refine L.bind (hx.value type _) fun t ht => ?_
  exact L.of_pure (.value type open_ ht.2.2 ht.1 ht.2.1 rfl)

theorem ensures_placeInStruct [LawfulMonad m] {s : StructState} {x : Measured m}
    (hx : L.Knows K x) : L.Ensures (placeInStruct S p cap s x) (StructStep p cap K x.member s) := by
  unfold placeInStruct
  refine L.within ?_
  cases open_ : s.flexible with
  | some name => exact L.fail
  | none =>
    cases type : x.member.type with
    | bitfield base width => exact L.ensures_placeBitfield type open_
    | flexibleArray e => exact L.ensures_placeFlexible hx type open_
    | primitive | aggregate | array | incomplete | unknown =>
      exact L.ensures_placeValue hx (by rw [type]; rfl) open_

theorem ensures_overlayBitfield {s : UnionState} {x : Member} {base : Primitive} {width : Json}
    (type : x.type = .bitfield base width) :
    L.Ensures (overlayBitfield S p cap s x base width) (UnionStep p cap K x s) := by
  unfold overlayBitfield
  refine L.bind (L.lift _) fun field hf => ?_
  refine L.bind (L.lift _) fun placed hp => ?_
  refine L.bind L.note fun _ _ => ?_
  cases h : placed.placement with
  | none => exact L.of_pure (.skipped type hf hp h)
  | some place => exact L.of_pure (.bitfield type hf hp h)

theorem ensures_overlayValue [LawfulMonad m] {s : UnionState} {x : Measured m}
    (hx : L.Knows K x) (type : x.member.type.memberOnly? = none) :
    L.Ensures (overlayValue S p cap s x) (UnionStep p cap K x.member s) := by
  have h : overlayValue S p cap s x =
      (measureTwice S x (p.memberExtent x.member cap) >>= fun t =>
        pure { s.reaching t.2.1.size t.2.1.sizeIsFlag with
          slots := s.slots ++ [valueSlot x.member s.count 0 0 t.2.1 t.2.2]
          count := s.count + 1
          alignment := max s.alignment t.2.1.alignment }) := by
    simp only [overlayValue, measureTwice, bind_assoc, pure_bind]
  rw [h]
  refine L.bind (hx.value type _) fun t ht => ?_
  exact L.of_pure (.value type ht.2.2 ht.1 ht.2.1)

theorem ensures_placeInUnion [LawfulMonad m] {s : UnionState} {x : Measured m}
    (hx : L.Knows K x) : L.Ensures (placeInUnion S p cap s x) (UnionStep p cap K x.member s) := by
  unfold placeInUnion
  refine L.within ?_
  cases type : x.member.type with
  | flexibleArray e => exact L.fail
  | bitfield base width => exact L.ensures_overlayBitfield type
  | primitive | aggregate | array | incomplete | unknown =>
    exact L.ensures_overlayValue hx (by rw [type]; rfl)

/-- **A walk in a setting** is one of the walks that the steps describe. -/
theorem ensures_sequenceMembers [LawfulMonad m] {kind : AggregateKind} {xs : List (Measured m)}
    (h : ∀ x ∈ xs, L.Knows K x) :
    L.Ensures (sequenceMembers S p cap kind xs)
      (Sequenced.Comes p cap K kind (xs.map Measured.member)) := by
  cases kind with
  | struct =>
    refine L.bind (L.foldlM Measured.member
      (fun x hx s => L.ensures_placeInStruct (h x hx)) .start) fun s hs => ?_
    refine L.bind L.note fun _ _ => ?_
    exact L.of_pure (.struct rfl hs)
  | union =>
    refine L.bind (L.foldlM Measured.member
      (fun x hx s => L.ensures_placeInUnion (h x hx)) .start) fun s hs => ?_
    exact L.of_pure (.union rfl hs)

end Postconditions

end Walks

end RecordLayout
