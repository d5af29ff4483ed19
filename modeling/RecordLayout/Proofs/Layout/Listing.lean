import RecordLayout.Proofs.Layout.EngineWellFormed

/-!
# The members that a layout lists

The direct members of a layout stand for the members of the aggregate that are reported, one for one
and in the same order.  A bitfield is listed with its width, a member of aggregate type with the
layout of its type, and every other member with neither.

A size that was written as a flag is shown as one.  It counts the same: a size is positive, so such
a size is one.

## Main definitions

* `Member.IsListedAs` relates a member to its place in a layout;
* `Aggregate.IsListedBy` relates an aggregate to its layout, all layouts nested in it included.

## Main results

* `listing_invariant`: the layouts that a walk makes up list their members;
* `Aggregate.IsListedBy.of_sameKey`: a listing does not tell the same keys apart;
* `Engine.isListedBy_of_layout`: so do the layouts of an engine.
-/

namespace RecordLayout

/-! ## Listings -/

/-- How a layout lists a member. -/
structure Member.IsListedAs (x : Member) (m : MemberLayout) : Prop where
  name : m.name = x.name
  plain : (∀ base width, x.type ≠ .bitfield base width) → m.bits = none
  bitfield : ∀ base width, x.type = .bitfield base width →
    ∃ b, m.bits = some b ∧ width.number? = some b.width
  /-- The storage of a bitfield is shown as it is. -/
  shown : m.bits.isSome → m.shownSize.value = m.size
  aggregate : ∀ b, x.type = .aggregate b → m.layout.isSome
  nested : m.layout.isSome → ∃ b, x.type = .aggregate b
  anonymous : m.name = none → m.layout.isSome

/-- A layout lists the members of an aggregate that are reported, and the layouts in it list those
of the aggregates inside. -/
inductive Aggregate.IsListedBy : Aggregate → LayoutResult → Prop
  | intro {a : Aggregate} {r : LayoutResult}
      (direct : List.Forall₂ Member.IsListedAs (a.members.filter Member.isReported) r.direct)
      (nested : ∀ x m, (x, m) ∈ (a.members.filter Member.isReported).zip r.direct →
        ∀ b n, x.type = .aggregate b → m.layout = some n → b.IsListedBy n) :
      a.IsListedBy r

/-- A member with its place, and the layout of its type. -/
def Member.IsListedWith (x : Member) (m : MemberLayout) : Prop :=
  x.IsListedAs m ∧ ∀ b n, x.type = .aggregate b → m.layout = some n → b.IsListedBy n

theorem Aggregate.isListedBy_iff {a : Aggregate} {r : LayoutResult} :
    a.IsListedBy r ↔
      List.Forall₂ Member.IsListedWith (a.members.filter Member.isReported) r.direct := by
  constructor
  · rintro ⟨direct, nested⟩
    obtain ⟨hlength, hdirect⟩ := List.forall₂_iff_zip.mp direct
    exact List.forall₂_iff_zip.mpr ⟨hlength, fun h => ⟨hdirect h, nested _ _ h⟩⟩
  · intro h
    refine .intro (h.imp fun _ _ h => h.1) fun x m hmem => ?_
    exact ((List.forall₂_iff_zip.mp h).2 hmem).2

/-! ## Storage that is shown -/

/-- A size that was written as a flag is one. -/
def FlagFits (sizeIsFlag : Bool) (size : Int) : Prop := sizeIsFlag = true → size = 1

theorem value_shown_of_flagFits {sizeIsFlag : Bool} {size : Int} (h : FlagFits sizeIsFlag size) :
    (Quantity.shown size sizeIsFlag).value = size :=
  Quantity.value_shown fun hflag => .inr (h hflag)

theorem Profile.flagFits_of_primitiveExtent {p : Profile} {q : Primitive} {x : Extent}
    (h : p.primitiveExtent q = .ok x) : FlagFits x.sizeIsFlag x.size := by
  unfold primitiveExtent at h
  split at h
  · cases h
  · rename_i size _
    split at h
    · cases h
    · rename_i hpos
      obtain ⟨alignment, -, rfl⟩ := Except.map_eq_ok.mp h
      intro hflag
      cases size with
      | int n => cases hflag
      | flag b =>
        cases b with
        | false => exact absurd (Int.le_refl 0) hpos
        | true => rfl

namespace Bitfield

/-- A field is reported with its width, and the storage of what is reported and left open is shown
as it is. -/
structure Placed.Shows (placed : Placed) (width : Int) : Prop where
  unit : ∀ u ∈ placed.unit, FlagFits u.sizeIsFlag u.size
  width : ∀ place, placed.placement = some place → place.bitWidth = width
  storage : ∀ place, placed.placement = some place → FlagFits place.sizeIsFlag place.unitSize

section Shows

variable {p : Profile} {f : Field} {width cursor : Int} {unit : Option OpenUnit}

theorem shows_allocate (hf : FlagFits f.extent.sizeIsFlag f.extent.size) (notes : List String) :
    (allocate p f width cursor notes).Shows width where
  unit := by
    rintro u ⟨⟩
    exact hf
  width := by
    rintro place ⟨⟩
    rfl
  storage := by
    rintro place ⟨⟩
    exact hf

theorem shows_share {u : OpenUnit} (hu : FlagFits u.sizeIsFlag u.size) :
    (share p f width cursor u).Shows width where
  unit := by
    rintro v ⟨⟩
    exact hu
  width := by
    rintro place ⟨⟩
    rfl
  storage := by
    rintro place ⟨⟩
    exact hu

/-- In bits packing the storage is the bytes that the field occupies, never a flag. -/
theorem shows_placeAtBit (hf : FlagFits f.extent.sizeIsFlag f.extent.size) (running : Int)
    (notes : List String) : (placeAtBit p f width cursor running notes).Shows width where
  unit := by
    rintro u ⟨⟩
    exact hf
  width := by
    rintro place ⟨⟩
    rfl
  storage := by
    rintro place ⟨⟩
    exact nofun

theorem shows_placeInUnit (hf : FlagFits f.extent.sizeIsFlag f.extent.size)
    (hunit : ∀ u ∈ unit, FlagFits u.sizeIsFlag u.size) :
    (placeInUnit p f width cursor unit).Shows width := by
  cases unit with
  | none => exact shows_allocate hf _
  | some u =>
    rw [placeInUnit]
    split
    · exact shows_share (hunit u rfl)
    · exact shows_allocate hf _

theorem shows_placeInBits (hf : FlagFits f.extent.sizeIsFlag f.extent.size) :
    (placeInBits p f width cursor unit).Shows width := by
  cases unit with
  | none => exact shows_placeAtBit hf _ _
  | some u =>
    rw [placeInBits]
    split
    · exact shows_placeAtBit hf _ _
    · exact shows_placeAtBit hf _ _

theorem shows_of_place {placed : Placed} (h : place p f cursor unit = .ok placed)
    (hf : FlagFits f.extent.sizeIsFlag f.extent.size)
    (hunit : ∀ u ∈ unit, FlagFits u.sizeIsFlag u.size) :
    ∃ width, f.checkedWidth = .ok width ∧ placed.Shows width := by
  obtain ⟨width, hwidth, rfl⟩ := place_eq_ok h
  refine ⟨width, hwidth, ?_⟩
  unfold placeWidth
  split
  · exact ⟨by rintro _ ⟨⟩, by rintro _ ⟨⟩, by rintro _ ⟨⟩⟩
  · split
    · exact shows_placeInBits hf
    · exact shows_placeInUnit hf hunit

end Shows

end Bitfield

/-! ## Slots -/

section Slots

variable {p : Profile} {cap : Option Int} {x : Member}

/-- A member that is no bitfield is listed as its slot is placed. -/
theorem isListedWith_valueSlot {E : TypeNode → Extent → Prop} {natural extent : Extent}
    {nested : Option LayoutResult} {index : Nat} {offset padding : Int}
    (hx : ∀ base width, x.type ≠ .bitfield base width)
    (hsized : Sized E Aggregate.IsListedBy x.type natural nested)
    (hanonymous : x.name = none → nested.isSome) :
    x.IsListedWith (valueSlot x index offset padding extent nested).placed := by
  refine ⟨⟨rfl, fun _ => rfl, fun base width h => absurd h (hx base width), nofun, ?_, ?_,
    hanonymous⟩, ?_⟩
  · intro b hb
    obtain ⟨-, hnested⟩ := hsized
    rw [hb] at hnested
    obtain ⟨r, rfl, -⟩ := hnested
    rfl
  · intro hsome
    obtain ⟨r, rfl⟩ := Option.isSome_iff_exists.mp hsome
    obtain ⟨b, hb, -⟩ := hsized.exists_aggregate
    exact ⟨b, hb⟩
  · rintro b n hb rfl
    obtain ⟨b', hb', hlisted, -⟩ := hsized.exists_aggregate
    obtain rfl := TypeNode.aggregate.inj (hb.symm.trans hb')
    exact hlisted

/-- A bitfield is listed with its width. -/
theorem isListedWith_bitfieldSlot {base : Primitive} {width : Json} {field : Bitfield.Field}
    {place : Bitfield.Placement} (type : x.type = .bitfield base width)
    (hfield : bitfieldOf p x cap base width = .ok field)
    (hwidth : field.checkedWidth = .ok place.bitWidth)
    (hflag : FlagFits place.sizeIsFlag place.unitSize) (hname : x.name.isSome) :
    x.IsListedWith (bitfieldSlot x place).placed := by
  obtain ⟨natural, -, -, rfl⟩ := bitfieldOf_eq_ok hfield
  have hnumber : width = .int place.bitWidth := (Bitfield.checkedWidth_eq_ok hwidth).1
  refine ⟨⟨rfl, fun h => absurd type (h base width), ?_, ?_, ?_, nofun, ?_⟩, ?_⟩
  · intro base' width' h
    obtain ⟨rfl, rfl⟩ := TypeNode.bitfield.inj (type.symm.trans h)
    exact ⟨_, rfl, by rw [hnumber]; rfl⟩
  · exact fun _ => value_shown_of_flagFits hflag
  · intro b hb
    rw [type] at hb
    cases hb
  · intro hnone
    exact absurd (hname.symm.trans (congrArg Option.isSome hnone)) nofun
  · intro b n hb
    rw [type] at hb
    cases hb

end Slots

/-! ## Walks -/

/-- The slots that are listed stand for the members that are reported. -/
def Listed (members : List Member) (slots : List Slot) : Prop :=
  List.Forall₂ Member.IsListedWith (members.filter Member.isReported)
    ((slots.filter Slot.listed).map Slot.placed)

/-- What a walk knows of the types of members when layouts are to list them. -/
abbrev SizedListed (E : TypeNode → Extent → Prop) :
    TypeNode → Extent → Option LayoutResult → Prop :=
  Sized E Aggregate.IsListedBy

section Walks

variable {p : Profile} {cap : Option Int} {pre : List Member} {x : Member} {slots : List Slot}
  {E : TypeNode → Extent → Prop}

theorem Listed.push {slot : Slot} (h : Listed pre slots) (hlisted : slot.listed = x.isReported)
    (hslot : x.isReported = true → x.IsListedWith slot.placed) :
    Listed (pre ++ [x]) (slots ++ [slot]) := by
  unfold Listed
  rw [List.filter_append, List.filter_append, List.map_append]
  refine List.rel_append h ?_
  cases hx : x.isReported with
  | false => simp [hlisted, hx]
  | true => simpa [hlisted, hx] using hslot hx

/-- A member that is not reported and has no slot changes nothing. -/
theorem Listed.skip (h : Listed pre slots) (hx : x.isReported = false) :
    Listed (pre ++ [x]) slots := by
  unfold Listed
  rwa [List.filter_append, List.filter_cons_of_neg (by simp [hx]), List.filter_nil,
    List.append_nil]

theorem Listed.push_value {natural extent : Extent} {nested : Option LayoutResult} {index : Nat}
    {offset padding : Int} (h : Listed pre slots)
    (hx : ∀ base width, x.type ≠ .bitfield base width)
    (hsized : SizedListed E x.type natural nested) (hanonymous : x.name = none → nested.isSome) :
    Listed (pre ++ [x]) (slots ++ [valueSlot x index offset padding extent nested]) :=
  h.push (isReported_value hx).symm fun _ => isListedWith_valueSlot hx hsized hanonymous

/-- A bitfield with its slot, in any unit whose storage is shown as it is. -/
theorem Listed.push_bitfield {base : Primitive} {width : Json} {field : Bitfield.Field}
    {cursor : Int} {unit : Option Bitfield.OpenUnit} {placed : Bitfield.Placed}
    {place : Bitfield.Placement} (h : Listed pre slots) (type : x.type = .bitfield base width)
    (hfield : bitfieldOf p x cap base width = .ok field)
    (hplaced : Bitfield.place p field cursor unit = .ok placed)
    (hplace : placed.placement = some place)
    (hshows : ∃ width, field.checkedWidth = .ok width ∧ placed.Shows width) :
    Listed (pre ++ [x]) (slots ++ [bitfieldSlot x place]) := by
  have hreported := isReported_bitfield type hfield hplaced
  rw [hplace, Option.isSome_some, Bool.and_true] at hreported
  obtain ⟨_, hwidth, hshows⟩ := hshows
  obtain rfl := hshows.width _ hplace
  refine h.push hreported.symm fun hx => ?_
  exact isListedWith_bitfieldSlot type hfield hwidth (hshows.storage _ hplace) (hreported ▸ hx)

theorem flagFits_of_bitfieldOf {base : Primitive} {width : Json} {field : Bitfield.Field}
    (hfield : bitfieldOf p x cap base width = .ok field) :
    FlagFits field.extent.sizeIsFlag field.extent.size := by
  obtain ⟨natural, -, hnatural, rfl⟩ := bitfieldOf_eq_ok hfield
  have hfits : FlagFits natural.sizeIsFlag natural.size :=
    Profile.flagFits_of_primitiveExtent hnatural
  exact hfits

/-- A bitfield without a placement is not reported. -/
theorem isReported_of_placement_eq_none {base : Primitive} {width : Json} {field : Bitfield.Field}
    {cursor : Int} {unit : Option Bitfield.OpenUnit} {placed : Bitfield.Placed}
    (type : x.type = .bitfield base width) (hfield : bitfieldOf p x cap base width = .ok field)
    (hplaced : Bitfield.place p field cursor unit = .ok placed)
    (hplace : placed.placement = none) : x.isReported = false := by
  rw [isReported_bitfield type hfield hplaced, hplace]
  exact Bool.and_false _

/-- **One member of a struct** is listed if it is reported. -/
theorem StructStep.listed {s t : StructState}
    (hs : Listed pre s.slots ∧ ∀ u ∈ s.unit, FlagFits u.sizeIsFlag u.size)
    (h : StructStep p cap (SizedListed E) x s t) :
    Listed (pre ++ [x]) t.slots ∧ ∀ u ∈ t.unit, FlagFits u.sizeIsFlag u.size := by
  cases h with
  | skipped type open_ field_eq placed_eq placement =>
    obtain ⟨_, -, hshows⟩ :=
      Bitfield.shows_of_place placed_eq (flagFits_of_bitfieldOf field_eq) hs.2
    exact ⟨hs.1.skip (isReported_of_placement_eq_none type field_eq placed_eq placement),
      hshows.unit⟩
  | bitfield type open_ field_eq placed_eq placement =>
    have hshows := Bitfield.shows_of_place placed_eq (flagFits_of_bitfieldOf field_eq) hs.2
    exact ⟨hs.1.push_bitfield type field_eq placed_eq placement hshows,
      hshows.elim fun _ h => h.2.unit⟩
  | flexible type open_ named sized empty extent_eq offset_eq =>
    refine ⟨hs.1.push_value (by simp [type]) sized ?_, by rintro _ ⟨⟩⟩
    intro hnone
    rw [named] at hnone
    cases hnone
  | value type open_ anonymous sized extent_eq offset_eq =>
    exact ⟨hs.1.push_value (ne_bitfield type) sized anonymous, by rintro _ ⟨⟩⟩

/-- **One member of a union** is listed if it is reported. -/
theorem UnionStep.listed {s t : UnionState} (hs : Listed pre s.slots)
    (h : UnionStep p cap (SizedListed E) x s t) : Listed (pre ++ [x]) t.slots := by
  cases h with
  | skipped type field_eq placed_eq placement =>
    exact hs.skip (isReported_of_placement_eq_none type field_eq placed_eq placement)
  | bitfield type field_eq placed_eq placement =>
    have hshows :=
      Bitfield.shows_of_place placed_eq (flagFits_of_bitfieldOf field_eq) (by rintro _ ⟨⟩)
    exact hs.push_bitfield type field_eq placed_eq placement hshows
  | value type anonymous sized extent_eq => exact hs.push_value (ne_bitfield type) sized anonymous

theorem Sequenced.Comes.listed {kind : AggregateKind} {members : List Member} {s : Sequenced}
    (h : s.Comes p cap (SizedListed E) kind members) : Listed members s.slots := by
  have hnil : Listed [] [] := .nil
  cases h with
  | struct kind_eq walk =>
    exact (walk.snoc_induction (motive := fun pre s => Listed pre s.slots ∧
      ∀ u ∈ s.unit, FlagFits u.sizeIsFlag u.size) ⟨hnil, by rintro _ ⟨⟩⟩
      fun _ _ _ _ _ hs hstep => hstep.listed hs).1
  | union kind_eq walk =>
    exact walk.snoc_induction (motive := fun pre s => Listed pre s.slots) hnil
      fun _ _ _ _ _ hs hstep => hstep.listed hs

end Walks

/-! ## All layouts -/

/-- **The layouts that a walk makes up list their members**, and they are well formed. -/
theorem listing_invariant (p : Profile) :
    LayoutInvariant p (fun _ x => 0 ≤ x.size) fun a r => WellLaid p a r ∧ a.IsListedBy r where
  primitive := (wellLaid_invariant p).primitive
  array := (wellLaid_invariant p).array
  flexible _ _ := Int.le_refl 0
  aggregate h := (wellLaid_invariant p).aggregate h.1
  compute hcap hcomes hfinish := by
    have hwell := hcomes.mono fun _ _ _ => Sized.mono (fun _ _ h => h) fun _ _ h => h.1
    have hlisted := hcomes.mono fun _ _ _ => Sized.mono (fun _ _ h => h) fun _ _ h => h.2
    have hsound := Sequenced.sound_of_comes hwell
    refine ⟨hsound.wellLaid hfinish, Aggregate.isListedBy_iff.mpr ?_⟩
    obtain ⟨alignment, -, rfl⟩ := Except.map_eq_ok.mp hfinish
    rw [LayoutResult.direct, Sequenced.members,
      direct_members fun t ht => (hsound.slots t ht).promotes]
    exact hlisted.listed

/-! ## Layouts of an engine -/

/-- The reported members of types that are the same key. -/
theorem forall₂_reported_of_sameKeys {xs ys : List Member} (h : sameKeys xs ys = true) :
    List.Forall₂ (fun x y => x.sameKey y = true) (xs.filter Member.isReported)
      (ys.filter Member.isReported) := by
  induction xs generalizing ys with
  | nil =>
    cases ys with
    | nil => exact .nil
    | cons y ys => cases h
  | cons x xs ih =>
    cases ys with
    | nil => cases h
    | cons y ys =>
      simp only [sameKeys, Bool.and_eq_true] at h
      have hreported := (isReported_of_sameKey h.1).1
      cases hy : y.isReported with
      | false =>
        rw [List.filter_cons_of_neg (by simp [hreported, hy]),
          List.filter_cons_of_neg (by simp [hy])]
        exact ih h.2
      | true =>
        rw [List.filter_cons_of_pos (by rw [hreported, hy]), List.filter_cons_of_pos hy]
        exact .cons h.1 (ih h.2)

/-- A listing does not tell members apart that are the same key. -/
theorem Member.IsListedAs.of_sameKey {x y : Member} {m : MemberLayout} (h : x.sameKey y = true)
    (hx : x.IsListedAs m) : y.IsListedAs m := by
  have hname := (isReported_of_sameKey h).2
  obtain ⟨type, name, attributes⟩ := x
  obtain ⟨type', name', attributes'⟩ := y
  simp only [Member.sameKey, Bool.and_eq_true, beq_iff_eq] at h
  obtain ⟨⟨htype, -⟩, -⟩ := h
  refine ⟨hx.name.trans hname, fun hplain => hx.plain ?_, ?_, hx.shown, ?_, ?_, hx.anonymous⟩
  · rintro base width rfl
    cases type' with
    | bitfield base' width' => exact hplain base' width' rfl
    | primitive | aggregate | array | flexibleArray | incomplete | unknown => cases htype
  · rintro base' width' rfl
    cases type with
    | bitfield base width =>
      obtain ⟨b, hb, hwidth⟩ := hx.bitfield base width rfl
      simp only [TypeNode.sameKey, Bool.and_eq_true] at htype
      exact ⟨b, hb, (Json.number?_eq_of_equals htype.2).symm.trans hwidth⟩
    | primitive | aggregate | array | flexibleArray | incomplete | unknown => cases htype
  · rintro b' rfl
    cases type with
    | aggregate b => exact hx.aggregate b rfl
    | primitive | bitfield | array | flexibleArray | incomplete | unknown => cases htype
  · intro hsome
    obtain ⟨b, rfl⟩ := hx.nested hsome
    cases type' with
    | aggregate b' => exact ⟨b', rfl⟩
    | primitive | bitfield | array | flexibleArray | incomplete | unknown => cases htype

theorem Member.IsListedWith.of_sameKey {x y : Member} {m : MemberLayout}
    (h : x.sameKey y = true) (hx : x.IsListedAs m)
    (ih : ∀ a n, x.type = .aggregate a → m.layout = some n →
      ∀ {b : Aggregate}, a.sameKey b = true → b.IsListedBy n) : y.IsListedWith m := by
  refine ⟨hx.of_sameKey h, fun b n hb hn => ?_⟩
  obtain ⟨a, ha⟩ := hx.nested (by rw [hn]; rfl)
  obtain ⟨type, name, attributes⟩ := x
  obtain ⟨type', name', attributes'⟩ := y
  obtain rfl : type = .aggregate a := ha
  obtain rfl : type' = .aggregate b := hb
  simp only [Member.sameKey, Bool.and_eq_true] at h
  exact ih a n rfl hn h.1.1

theorem Aggregate.sameKeys_of_sameKey {a b : Aggregate} (h : a.sameKey b = true) :
    sameKeys a.members b.members = true := by
  obtain ⟨kind, members, name, pack, attributes, _⟩ := a
  obtain ⟨kind', members', name', pack', attributes', _⟩ := b
  simp only [Aggregate.sameKey, Bool.and_eq_true] at h
  exact h.1.1.1.2

/-- **A listing does not tell the same keys apart.** -/
theorem Aggregate.IsListedBy.of_sameKey {a b : Aggregate} {r : LayoutResult}
    (h : a.IsListedBy r) (hkey : a.sameKey b = true) : b.IsListedBy r := by
  induction h generalizing b with
  | @intro a r direct nested ih =>
    rw [Aggregate.isListedBy_iff]
    obtain ⟨hlength, hdirect⟩ := List.forall₂_iff_get.mp direct
    obtain ⟨hlength', hkeys⟩ := List.forall₂_iff_get.mp
      (forall₂_reported_of_sameKeys (Aggregate.sameKeys_of_sameKey hkey))
    refine List.forall₂_iff_get.mpr ⟨hlength'.symm.trans hlength, fun i hi hi' => ?_⟩
    have hi₀ := hlength'.symm ▸ hi
    refine Member.IsListedWith.of_sameKey (hkeys i hi₀ hi) (hdirect i hi₀ hi') ?_
    have hmem : (_, _) ∈ (a.members.filter Member.isReported).zip r.direct :=
      List.mem_iff_getElem.mpr ⟨i, by rw [List.length_zip]; omega, List.getElem_zip⟩
    exact fun a n ha hn b hab => ih _ _ hmem a n ha hn hab

theorem listing_keepable :
    Engine.Keepable fun p a r => (WellLaid p a r ∧ a.IsListedBy r) ∧ a.sameKey a = true :=
  .of_same fun h hr => ⟨hr.1.of_sameKey h, hr.2.of_sameKey h⟩

/-- **The layouts of an engine list their members**, after any calls. -/
theorem Engine.isListedBy_of_layout {channels : Channels} {limit : Option Int} {calls : List Call}
    {p : Profile} {a : Aggregate} {r : LayoutResult}
    (h : ((layout p (.aggregate a)).run ((make channels limit).replay calls)).1 = .ok r) :
    a.IsListedBy r :=
  (layout_ensures listing_keepable
    (fun p => (listing_invariant p).and (selfKey_invariant p)) h).1.2

end RecordLayout
