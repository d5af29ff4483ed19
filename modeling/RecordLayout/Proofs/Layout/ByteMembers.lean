import RecordLayout.Layout.Reorder
import RecordLayout.Proofs.Layout.Induction
import RecordLayout.Proofs.Layout.MemberExtent

/-!
# Structs without bitfields

What a member that is no bitfield takes of a struct does not depend on where it comes: an extent
under the cap of the struct and, for an aggregate, the layout of its type.  The walk over such
members succeeds exactly when each of them fits and none comes after an open-ended array, and what
it does is a fold that cannot fail.

## Main definitions

* `Member.fitting` is what a member takes, and `Fitted` is a member with it;
* `StructState.push` places a fitted member;
* `placeAll` places fitted members from the start on.

## Main results

* `placeInStruct_eq`: placing a member is fitting it, and pushing what it takes;
* `layoutOf_eq_ok_iff`: a struct without bitfields lays out exactly when its members fit.
-/

namespace RecordLayout

variable {p : Profile} {cap : Option Int}

/-! ## Fitting -/

/-- What a member that is no bitfield takes of a struct: its extent under the cap and the layout of
its type, if that is an aggregate. -/
def Member.fitting (p : Profile) (cap : Option Int) (x : Member) :
    Except Failure (Extent × Option LayoutResult) := do
  let natural ← (x.type.measure Setting.pure p).extent
  let extent ← p.memberExtent x cap natural
  if x.isFlexible then
    match x.name with
    | none => throw (.ofCause .unnamedFlexibleArray)
    | some _ => return (extent, none)
  else
    let nested ← nestedLayout Setting.pure (x.measured Setting.pure p)
    return (extent, nested)

/-- A member that is no bitfield, with what it takes of a struct. -/
structure Fitted (p : Profile) (cap : Option Int) where
  member : Member
  extent : Extent
  nested : Option LayoutResult
  fits : member.fitting p cap = .ok (extent, nested)

namespace Fitted

/-- What a member takes is determined by the member. -/
theorem member_injective : Function.Injective (Fitted.member : Fitted p cap → Member) := by
  rintro ⟨x, extent, nested, fits⟩ ⟨y, extent', nested', fits'⟩ rfl
  obtain ⟨rfl, rfl⟩ := Prod.mk.inj (Except.ok.inj (fits.symm.trans fits'))
  rfl

/-- Whether a fitted member is an open-ended array. -/
def isFlexible (f : Fitted p cap) : Bool := f.member.isFlexible

end Fitted

/-- The state after placing a member that takes an extent and has a nested layout. -/
def StructState.push (s : StructState) (x : Member) (extent : Extent)
    (nested : Option LayoutResult) : StructState where
  slots := s.slots ++
    [valueSlot x s.count (Number.roundUp s.cursor extent.alignment)
      (Number.roundUp s.cursor extent.alignment - s.cursor) extent nested]
  count := s.count + 1
  cursor := Number.roundUp s.cursor extent.alignment + extent.size
  alignment := max s.alignment extent.alignment
  flexible := if x.isFlexible then x.name else none
  unit := none

theorem Member.measure_measured {m : Type → Type} [Monad m] (S : Setting m) (p : Profile)
    (x : Member) : (x.measured S p).measure = x.type.measure S p := by
  cases x
  rfl

/-- An open-ended array has no size of its own. -/
theorem size_of_flexibleArray {e : TypeNode} {natural : Extent}
    (h : ((TypeNode.flexibleArray e).measure Setting.pure p).extent = .ok natural) :
    natural.size = 0 := by
  simp only [TypeNode.measure, Measure.failing] at h
  obtain ⟨-, -, h⟩ := Except.bind_eq_ok.mp h
  obtain ⟨x, -, h⟩ := Except.bind_eq_ok.mp h
  obtain rfl := Except.pure_eq_ok.mp h
  rfl

section Place

variable {s t : StructState} {x : Member}

theorem flush_cursor_none (p : Profile) (cursor : Int) :
    (Bitfield.flush p cursor none).cursor = cursor := rfl

/-- Placing an open-ended array is fitting it. -/
theorem placeFlexible_eq {e : TypeNode} (hx : x.type = .flexibleArray e) (hunit : s.unit = none) :
    placeFlexible Setting.pure p cap s (x.measured Setting.pure p) =
      (x.fitting p cap).map fun r => s.push x r.1 r.2 := by
  have hflexible : x.isFlexible = true := by simp [Member.isFlexible, hx]
  unfold placeFlexible Member.fitting
  simp only [hunit, Member.measure_measured, Member.member_measured, Setting.pure_lift, hflexible,
    if_true]
  cases hnatural : (x.type.measure Setting.pure p).extent with
  | error f => rfl
  | ok natural =>
    have hsize : natural.size = 0 := size_of_flexibleArray (hx ▸ hnatural)
    cases hextent : p.memberExtent x cap natural with
    | error f => simp [hextent, bind, Except.bind, Except.map, Setting.pure]
    | ok extent =>
      have hsize' : extent.size = 0 := by rw [Profile.memberExtent_eq_ok hextent, hsize]
      cases hname : x.name with
      | none => simp [hextent, bind, Except.bind, Except.map, Setting.pure, throw, throwThe,
          MonadExceptOf.throw]
      | some name =>
        simp [hextent, bind, Except.bind, Except.map, Setting.pure, pure, Except.pure,
          StructState.push, hflexible, hname, hsize', flush_cursor_none]

/-- Placing any other member that is no bitfield is fitting it. -/
theorem placeValue_eq (hx : x.isFlexible = false) (hopen : s.flexible = none)
    (hunit : s.unit = none) :
    placeValue Setting.pure p cap s (x.measured Setting.pure p) =
      (x.fitting p cap).map fun r => s.push x r.1 r.2 := by
  unfold placeValue Member.fitting
  simp only [hunit, Member.measure_measured, Member.member_measured, Setting.pure_lift, hx,
    Bool.false_eq_true, if_false]
  cases hnatural : (x.type.measure Setting.pure p).extent with
  | error f => rfl
  | ok natural =>
    cases hextent : p.memberExtent x cap natural with
    | error f => simp [hextent, bind, Except.bind, Except.map, Setting.pure]
    | ok extent =>
      cases hnested : nestedLayout Setting.pure (x.measured Setting.pure p) with
      | error f => simp [hextent, bind, Except.bind, Except.map, Setting.pure]
      | ok nested =>
        simp [hextent, bind, Except.bind, Except.map, Setting.pure, pure, Except.pure,
          StructState.push, hx, hopen, flush_cursor_none]

/-- **Placing a member** before which no open-ended array came is fitting it. -/
theorem placeInStruct_eq (hx : x.isBitfield = false) (hopen : s.flexible = none)
    (hunit : s.unit = none) :
    placeInStruct Setting.pure p cap s (x.measured Setting.pure p) =
      Failure.within x.pathName ((x.fitting p cap).map fun r => s.push x r.1 r.2) := by
  unfold placeInStruct
  rw [Member.member_measured, hopen]
  dsimp only [Setting.pure]
  congr 1
  cases htype : x.type with
  | bitfield base width => simp [Member.isBitfield, htype] at hx
  | flexibleArray e => exact placeFlexible_eq htype hunit
  | primitive | aggregate | array | incomplete | unknown =>
    exact placeValue_eq (by simp [Member.isFlexible, htype]) hopen hunit

theorem placeInStruct_ne_ok (hclosed : s.flexible.isSome) :
    placeInStruct Setting.pure p cap s (x.measured Setting.pure p) ≠ .ok t := by
  obtain ⟨name, hname⟩ := Option.isSome_iff_exists.mp hclosed
  unfold placeInStruct
  rw [hname]
  exact nofun

end Place

/-- A member that is open-ended and fits has a name. -/
theorem Member.isSome_name_of_fitting {x : Member} {r : Extent × Option LayoutResult}
    (h : x.fitting p cap = .ok r) (hx : x.isFlexible = true) : x.name.isSome := by
  unfold fitting at h
  obtain ⟨natural, -, h⟩ := Except.bind_eq_ok.mp h
  obtain ⟨extent, -, h⟩ := Except.bind_eq_ok.mp h
  rw [if_pos hx] at h
  cases hname : x.name with
  | none =>
    rw [hname] at h
    exact absurd h nofun
  | some name => rfl

/-! ## Walks -/

/-- Only the last member may be an open-ended array. -/
def OnlyLastFlexible (members : List Member) : Prop :=
  ∀ x ∈ members.dropLast, x.isFlexible = false

/-- The state after placing fitted members. -/
def StructState.pushAll (s : StructState) (fs : List (Fitted p cap)) : StructState :=
  fs.foldl (fun s f => s.push f.member f.extent f.nested) s

@[simp] theorem StructState.pushAll_nil (s : StructState) :
    s.pushAll ([] : List (Fitted p cap)) = s := rfl

@[simp] theorem StructState.pushAll_cons (s : StructState) (f : Fitted p cap)
    (fs : List (Fitted p cap)) :
    s.pushAll (f :: fs) = (s.push f.member f.extent f.nested).pushAll fs := rfl

theorem StructState.unit_pushAll {s : StructState} (h : s.unit = none) (fs : List (Fitted p cap)) :
    (s.pushAll fs).unit = none := by
  induction fs generalizing s with
  | nil => exact h
  | cons f fs ih => exact ih rfl

section Walks

variable {s t : StructState}

/-- Fitted members are placed. -/
theorem foldlM_placeInStruct (fs : List (Fitted p cap))
    (hbits : ∀ f ∈ fs, f.member.isBitfield = false) (hopen : s.flexible = none)
    (hunit : s.unit = none) (hlast : OnlyLastFlexible (fs.map Fitted.member)) :
    ((fs.map Fitted.member).map (Member.measured Setting.pure p)).foldlM
      (placeInStruct Setting.pure p cap) s = .ok (s.pushAll fs) := by
  induction fs generalizing s with
  | nil => rfl
  | cons f fs ih =>
    rw [List.forall_mem_cons] at hbits
    simp only [List.map_cons, List.foldlM_cons]
    rw [placeInStruct_eq hbits.1 hopen hunit, f.fits, Except.bind_eq_ok]
    refine ⟨_, rfl, ?_⟩
    cases fs with
    | nil => rfl
    | cons g gs =>
      have hf : f.member.isFlexible = false := hlast f.member (by simp)
      refine ih hbits.2 (by simp [StructState.push, hf]) rfl fun x hx => hlast x ?_
      exact List.mem_cons_of_mem _ hx

/-- Members that are placed fit. -/
theorem exists_fitted_of_foldlM {members : List Member}
    (hbits : ∀ x ∈ members, x.isBitfield = false) (hopen : s.flexible = none)
    (hunit : s.unit = none)
    (h : (members.map (Member.measured Setting.pure p)).foldlM
      (placeInStruct Setting.pure p cap) s = .ok t) :
    OnlyLastFlexible members ∧
      ∃ fs : List (Fitted p cap), fs.map Fitted.member = members ∧ s.pushAll fs = t := by
  induction members generalizing s with
  | nil =>
    obtain rfl := Except.pure_eq_ok.mp h
    exact ⟨by simp [OnlyLastFlexible], [], rfl, rfl⟩
  | cons x members ih =>
    rw [List.forall_mem_cons] at hbits
    rw [List.map_cons, List.foldlM_cons, placeInStruct_eq hbits.1 hopen hunit] at h
    obtain ⟨u, hu, h⟩ := Except.bind_eq_ok.mp h
    obtain ⟨⟨extent, nested⟩, hfits, rfl⟩ := Except.map_eq_ok.mp (Failure.within_eq_ok.mp hu)
    cases hx : x.isFlexible with
    | true =>
      have hname := Member.isSome_name_of_fitting hfits hx
      cases members with
      | nil =>
        obtain rfl := Except.pure_eq_ok.mp h
        exact ⟨by simp [OnlyLastFlexible], [⟨x, extent, nested, hfits⟩], rfl, rfl⟩
      | cons y ys =>
        rw [List.map_cons, List.foldlM_cons] at h
        obtain ⟨v, hv, -⟩ := Except.bind_eq_ok.mp h
        exact absurd hv (placeInStruct_ne_ok (by simpa [StructState.push, hx] using hname))
    | false =>
      obtain ⟨hlast, fs, rfl, rfl⟩ := ih hbits.2 (by simp [StructState.push, hx]) rfl h
      refine ⟨fun y hy => ?_, ⟨x, extent, nested, hfits⟩ :: fs, rfl, rfl⟩
      cases fs with
      | nil => simp at hy
      | cons f fs =>
        rcases List.mem_cons.mp hy with rfl | hy
        · exact hx
        · exact hlast y hy

end Walks

/-! ## Structs -/

/-- The members of a struct once fitted members are placed from the start on. -/
def placeAll (fs : List (Fitted p cap)) : Sequenced where
  slots := (StructState.start.pushAll fs).slots
  endOffset := (StructState.start.pushAll fs).cursor
  alignment := (StructState.start.pushAll fs).alignment

/-- Members without bitfields are placed exactly when they fit and only the last one is
open-ended. -/
theorem sequenceStruct_eq_ok_iff {members : List Member} {s : Sequenced}
    (hbits : ∀ x ∈ members, x.isBitfield = false) :
    sequenceStruct Setting.pure p cap (measureMembers Setting.pure p members) = .ok s ↔
      OnlyLastFlexible members ∧
        ∃ fs : List (Fitted p cap), fs.map Fitted.member = members ∧ placeAll fs = s := by
  have hclose (fs : List (Fitted p cap)) :
      ({ slots := (StructState.start.pushAll fs).slots
         endOffset := (Bitfield.flush p (StructState.start.pushAll fs).cursor
           (StructState.start.pushAll fs).unit).cursor
         alignment := (StructState.start.pushAll fs).alignment } : Sequenced) = placeAll fs := by
    rw [StructState.unit_pushAll rfl]
    rfl
  rw [measureMembers_eq_map]
  constructor
  · intro h
    obtain ⟨t, ht, h⟩ := Except.bind_eq_ok.mp h
    obtain ⟨hlast, fs, hfs, rfl⟩ := exists_fitted_of_foldlM hbits rfl rfl ht
    exact ⟨hlast, fs, hfs, (hclose fs).symm.trans (Except.pure_eq_ok.mp h)⟩
  · rintro ⟨hlast, fs, rfl, rfl⟩
    rw [List.forall_mem_map] at hbits
    refine Except.bind_eq_ok.mpr ⟨_, foldlM_placeInStruct fs hbits rfl rfl hlast, ?_⟩
    exact congrArg Except.ok (hclose fs)

/-- **A struct without bitfields lays out exactly when its members fit** and only the last one is
open-ended, and then they are placed one after another. -/
theorem layoutOf_eq_ok_iff {a : Aggregate} {r : LayoutResult} (hkind : a.kind = .struct)
    (hbits : ∀ x ∈ a.members, x.isBitfield = false) :
    layoutOf p (.aggregate a) = .ok r ↔ ∃ cap, a.packCap = .ok cap ∧ OnlyLastFlexible a.members ∧
      ∃ fs : List (Fitted p cap), fs.map Fitted.member = a.members ∧
        a.finish (placeAll fs) = .ok r := by
  rw [Aggregate.layoutOf_eq, Failure.within_eq_ok, hkind]
  constructor
  · intro h
    obtain ⟨cap, hcap, h⟩ := Except.bind_eq_ok.mp h
    obtain ⟨s, hs, hr⟩ := Except.bind_eq_ok.mp h
    obtain ⟨hlast, fs, hfs, rfl⟩ := (sequenceStruct_eq_ok_iff hbits).mp hs
    exact ⟨cap, hcap, hlast, fs, hfs, hr⟩
  · rintro ⟨cap, hcap, hlast, fs, hfs, hr⟩
    have hs := (sequenceStruct_eq_ok_iff hbits).mpr ⟨hlast, fs, hfs, rfl⟩
    exact Except.bind_eq_ok.mpr ⟨cap, hcap, Except.bind_eq_ok.mpr ⟨placeAll fs, hs, hr⟩⟩

end RecordLayout
