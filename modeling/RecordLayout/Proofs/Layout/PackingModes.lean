import RecordLayout.Profile.BuiltIn
import RecordLayout.Proofs.Layout.BitCount
import RecordLayout.Proofs.Layout.Progress
import RecordLayout.Proofs.Layout.Tightening

/-!
# The two packings of bitfields

A struct whose members are bitfields of one base type, as aligned as it is large, is laid out alike
in unit packing and in bits packing: every field starts at the same bit in the order of
declaration, and if one of them has a name and a width, the struct has the same size and alignment.

The members are checked before any of them is placed, since a bitfield is refused for its base type
and its width alone; what is left is a fold that cannot fail.  The fold is compared with a count of
bits that does not look at the profile (`countedFields`), so any two profiles that agree on the base
type agree on the fields.

Without a field that has both a name and a width the alignments can differ, as an unnamed bitfield
aligns its struct in unit packing only.

## Main definitions

* `CheckedField` is a bitfield with a width that fits its base type;
* `countedFields` are the names, starts and widths of fields by the count of bits;
* `Aggregate.PacksAlike` says that two layouts of a struct of bitfields agree.

## Main results

* `layoutOf_bitfields`: a struct of bitfields is checked first and placed then;
* `StructState.Counted.pushFields`: placing fields is counting bits;
* `layoutOf_packing`: the two packings agree, in what engines answer, too.
-/

namespace RecordLayout

/-! ## Checked fields -/

/-- A bitfield member with the field that it places and the width of that. -/
structure CheckedField where
  member : Member
  field : Bitfield.Field
  width : Int

/-- The check of a bitfield member: of its attributes, its base type and its width. -/
def Member.checkField (p : Profile) (cap : Option Int) (x : Member) (base : Primitive)
    (width : Json) : Except Failure CheckedField :=
  Failure.within x.pathName do
    let field ← bitfieldOf p x cap base width
    let bits ← field.checkedWidth
    return ⟨x, field, bits⟩

/-- The check of a member that is to be a bitfield. -/
def Member.check (p : Profile) (cap : Option Int) (x : Member) : Except Failure CheckedField :=
  match x.type with
  | .bitfield base width => x.checkField p cap base width
  | _ => .error (.ofCause (.memberOnly x.type.describe))

/-- The state of a struct after a field is placed. -/
def StructState.pushField (p : Profile) (s : StructState) (c : CheckedField) : StructState :=
  let placed := Bitfield.placeWidth p c.field c.width s.cursor s.unit
  match placed.placement with
  | none => { s with count := s.count + 1, cursor := placed.cursor, unit := placed.unit }
  | some place =>
    { s with
      slots := s.slots ++ [bitfieldSlot c.member place]
      count := s.count + 1
      cursor := placed.cursor
      alignment := raisedBy p c.member place s.alignment
      unit := placed.unit }

section Check

variable {p q : Profile} {cap : Option Int} {x : Member} {s : StructState}

theorem StructState.flexible_pushField (h : s.flexible = none) (c : CheckedField) :
    (s.pushField p c).flexible = none := by
  unfold pushField
  dsimp only
  split <;> exact h

theorem StructState.pushField_of_none {c : CheckedField}
    (h : (Bitfield.placeWidth p c.field c.width s.cursor s.unit).placement = none) :
    s.pushField p c =
      { s with
        count := s.count + 1
        cursor := (Bitfield.placeWidth p c.field c.width s.cursor s.unit).cursor
        unit := (Bitfield.placeWidth p c.field c.width s.cursor s.unit).unit } := by
  unfold pushField
  dsimp only
  rw [h]

theorem StructState.pushField_of_some {c : CheckedField} {place : Bitfield.Placement}
    (h : (Bitfield.placeWidth p c.field c.width s.cursor s.unit).placement = some place) :
    s.pushField p c =
      { s with
        slots := s.slots ++ [bitfieldSlot c.member place]
        count := s.count + 1
        cursor := (Bitfield.placeWidth p c.field c.width s.cursor s.unit).cursor
        alignment := raisedBy p c.member place s.alignment
        unit := (Bitfield.placeWidth p c.field c.width s.cursor s.unit).unit } := by
  unfold pushField
  dsimp only
  rw [h]

/-- **Placing a bitfield is checking it**, and pushing it then. -/
theorem placeInStruct_bitfield (hp : p.IsAligned)
    (hcap : ∀ c ∈ cap, Number.isPowerOfTwo c = true)
    (hx : ∃ base width, x.type = .bitfield base width) (hopen : s.flexible = none) :
    placeInStruct Setting.pure p cap s (x.measured Setting.pure p) =
      (x.check p cap).map (s.pushField p) := by
  obtain ⟨base, width, type⟩ := hx
  unfold placeInStruct Member.check
  rw [Member.member_measured, hopen, type]
  show Failure.within x.pathName (placeBitfield Setting.pure p cap s x base width) =
    (x.checkField p cap base width).map (s.pushField p)
  unfold placeBitfield Member.checkField
  cases hfield : bitfieldOf p x cap base width with
  | error f => rfl
  | ok field =>
    have hpos : 0 < field.extent.alignment := by
      obtain ⟨natural, -, hnatural, rfl⟩ := bitfieldOf_eq_ok hfield
      apply Number.pos_of_isPowerOfTwo
      exact isPowerOfTwo_capAlignment (isPowerOfTwo_memberCap x hcap)
        (p.isPowerOfTwo_primitiveExtent hp hnatural)
    simp only [Setting.pure_lift]
    show Failure.within x.pathName (Bitfield.place p field s.cursor s.unit >>= _) =
      (Failure.within x.pathName (field.checkedWidth >>= _)).map (s.pushField p)
    rw [Bitfield.place_eq_map hpos]
    cases field.checkedWidth with
    | error f => rfl
    | ok bits =>
      show Failure.within x.pathName
        (match (Bitfield.placeWidth p field bits s.cursor s.unit).placement with
          | none => _
          | some place => _) = .ok (s.pushField p ⟨x, field, bits⟩)
      unfold StructState.pushField
      dsimp only
      cases (Bitfield.placeWidth p field bits s.cursor s.unit).placement <;> rfl

/-- The members of a struct of bitfields are checked first and placed then. -/
theorem sequenceStruct_bitfields (hp : p.IsAligned)
    (hcap : ∀ c ∈ cap, Number.isPowerOfTwo c = true) {members : List Member}
    (hmembers : ∀ x ∈ members, ∃ base width, x.type = .bitfield base width) :
    sequenceStruct Setting.pure p cap (measureMembers Setting.pure p members) =
      (members.mapM (Member.check p cap)).map fun cs =>
        (cs.foldl (StructState.pushField p) .start).close p := by
  have hfold : members.foldlM (fun s x => placeInStruct Setting.pure p cap s
        (x.measured Setting.pure p)) StructState.start =
      (members.mapM (Member.check p cap)).map fun cs => cs.foldl (StructState.pushField p) .start :=
    Except.foldlM_eq_mapM (P := fun s => s.flexible = none)
      (fun x hx s hopen => placeInStruct_bitfield hp hcap (hmembers x hx) hopen)
      (fun s c hopen => StructState.flexible_pushField hopen c) rfl
  rw [sequenceStruct_eq, measureMembers_eq_map, List.foldlM_map, hfold]
  cases members.mapM (Member.check p cap) <;> rfl

/-- The check of a bitfield looks at the extent of its base type only. -/
theorem Member.check_congr (h : p.primitiveExtent = q.primitiveExtent) :
    Member.check p cap = Member.check q cap := by
  funext x
  unfold check checkField bitfieldOf
  rw [h]

end Check

/-! ## Counting bits -/

/-- The names, the starts and the widths of fields of one base type from a bit on, by the count of
bits.  A width of zero is no field. -/
def countedFields (x : Extent) : Int → List CheckedField → List (Option String × Int × Option Int)
  | _, [] => []
  | bit, c :: cs =>
    let rest := countedFields x (Bitfield.bitAfter x bit c.width) cs
    if c.width = 0 then rest
    else (c.member.name, Bitfield.startBit x x.alignment c.width bit, some c.width) :: rest

/-- The name of a member, its start in the order of declaration and its width. -/
def MemberLayout.fieldView (fill : FillDirection) (m : MemberLayout) :
    Option String × Int × Option Int :=
  (m.name, m.startBit fill, m.bits.map (·.width))

/-- A field of the base type with the extent `x`, whose width fits it. -/
structure CheckedField.IsOf (x : Extent) (c : CheckedField) : Prop where
  extent : c.field.extent = x
  natural : c.field.natural = x.alignment
  nonneg : 0 ≤ c.width
  fits : c.width ≤ x.size * 8

/-- A state has reached a bit with fields of the extent `x` only.  The alignment is that of `x` once
a field with a name is listed. -/
structure StructState.Counted (p : Profile) (x : Extent) (bit : Int) (s : StructState) : Prop where
  represents : Bitfield.Represents p x bit s.cursor s.unit
  alignment : s.alignment = 1 ∨ s.alignment = x.alignment
  listed : ∀ t ∈ s.slots, t.listed = t.placed.name.isSome ∧
    (t.listed = true → s.alignment = x.alignment)

section Count

variable {p : Profile} {x : Extent} {bit : Int} {s : StructState} {c : CheckedField}

theorem StructState.counted_start (p : Profile) (x : Extent) :
    StructState.start.Counted p x 0 :=
  ⟨Bitfield.represents_start p x, .inl rfl, nofun⟩

/-- **Placing a field counts its bits.** -/
theorem StructState.Counted.pushField (h : s.Counted p x bit) (hpos : 0 < x.size)
    (hsize : x.size = x.alignment) (hc : c.IsOf x) :
    (s.pushField p c).Counted p x (Bitfield.bitAfter x bit c.width) ∧
      (s.pushField p c).slots.map (fun t => t.placed.fieldView p.fill) =
        s.slots.map (fun t => t.placed.fieldView p.fill) ++ countedFields x bit [c] := by
  obtain ⟨hrepresents, hnone, hsome⟩ :=
    h.represents.placeWidth hpos hsize hc.extent hc.natural hc.nonneg hc.fits
  by_cases hzero : c.width = 0
  · rw [StructState.pushField_of_none (hnone hzero)]
    refine ⟨⟨hrepresents, h.alignment, h.listed⟩, ?_⟩
    rw [countedFields, if_pos hzero]
    exact (List.append_nil _).symm
  · have hnonneg := hc.nonneg
    obtain ⟨place, hplacement, hat⟩ := hsome (by omega)
    have hview : (bitfieldSlot c.member place).placed.fieldView p.fill =
        (c.member.name, Bitfield.startBit x x.alignment c.width bit, some c.width) := by
      rw [← hat.start, ← hat.width]
      rfl
    have hraised : raisedBy p c.member place s.alignment = s.alignment ∨
        raisedBy p c.member place s.alignment = x.alignment := by
      have halignment := h.alignment
      unfold raisedBy
      rw [hat.alignment]
      split <;> omega
    have hnamed : c.member.name.isSome = true ∨ s.alignment = x.alignment →
        raisedBy p c.member place s.alignment = x.alignment := by
      have halignment := h.alignment
      intro hor
      unfold raisedBy bitfieldAligns
      rw [hat.alignment]
      rcases hor with hname | hequal
      · rw [hname, Bool.true_or, if_pos rfl]
        omega
      · split <;> omega
    rw [StructState.pushField_of_some hplacement]
    refine ⟨⟨hrepresents, ?_, ?_⟩, ?_⟩
    · have halignment := h.alignment
      show raisedBy p c.member place s.alignment = 1 ∨
        raisedBy p c.member place s.alignment = x.alignment
      omega
    · intro t ht
      rcases List.mem_append.mp ht with ht | ht
      · obtain ⟨hlisted, himp⟩ := h.listed t ht
        exact ⟨hlisted, fun hl => hnamed (.inr (himp hl))⟩
      · obtain rfl := List.mem_singleton.mp ht
        exact ⟨rfl, fun hl => hnamed (.inl hl)⟩
    · rw [countedFields, if_neg hzero, List.map_append, List.map_singleton, hview]
      rfl

/-- **Placing fields is counting bits.** -/
theorem StructState.Counted.pushFields {cs : List CheckedField} (h : s.Counted p x bit)
    (hpos : 0 < x.size) (hsize : x.size = x.alignment) (hcs : ∀ c ∈ cs, c.IsOf x) :
    (cs.foldl (StructState.pushField p) s).Counted p x
        (cs.foldl (fun bit c => Bitfield.bitAfter x bit c.width) bit) ∧
      (cs.foldl (StructState.pushField p) s).slots.map (fun t => t.placed.fieldView p.fill) =
        s.slots.map (fun t => t.placed.fieldView p.fill) ++ countedFields x bit cs := by
  induction cs generalizing s bit with
  | nil => exact ⟨h, by simp [countedFields]⟩
  | cons c cs ih =>
    rw [List.forall_mem_cons] at hcs
    obtain ⟨hstep, hslots⟩ := h.pushField hpos hsize hcs.1
    obtain ⟨hrest, hslots'⟩ := ih hstep hcs.2
    refine ⟨hrest, ?_⟩
    rw [List.foldl_cons, hslots', hslots, List.append_assoc]
    congr 1
    simp only [countedFields]
    split <;> rfl

end Count

/-! ## Ends of structs -/

section Ends

variable {p q : Profile} {x : Extent} {bit cursor cursor' alignment : Int}
  {unit unit' : Option Bitfield.OpenUnit}

/-- Flushes of states that have reached the same bit are rounded alike by any multiple of the
size. -/
theorem roundUp_flush_le (hs : Bitfield.Represents p x bit cursor unit)
    (ht : Bitfield.Represents q x bit cursor' unit') (hpos : 0 < x.size) (ha : 0 < alignment)
    (hdvd : x.size ∣ alignment) :
    Number.roundUp (Bitfield.flush q cursor' unit').cursor alignment ≤
      Number.roundUp (Bitfield.flush p cursor unit).cursor alignment := by
  have hround := Number.le_roundUp (Bitfield.flush p cursor unit).cursor alignment
  have hmultiple := Number.dvd_roundUp (Bitfield.flush p cursor unit).cursor ha
  generalize Number.roundUp (Bitfield.flush p cursor unit).cursor alignment = stop at *
  apply Number.roundUp_le_of_dvd _ hmultiple
  -- The multiple is a whole number of units at or after the bit, and a flush stays in its unit.
  obtain ⟨hbit, -⟩ := hs.flush_bounds hpos
  obtain ⟨-, hflush⟩ := ht.flush_bounds hpos
  have hunits : Number.roundUp bit (8 * x.size) ≤ stop * 8 := by
    apply Number.roundUp_le_of_dvd
    · omega
    · rw [Int.mul_comm 8]
      exact Int.mul_dvd_mul_right 8 (Int.dvd_trans hdvd hmultiple)
  omega

theorem roundUp_flush_eq (hs : Bitfield.Represents p x bit cursor unit)
    (ht : Bitfield.Represents q x bit cursor' unit') (hpos : 0 < x.size) (ha : 0 < alignment)
    (hdvd : x.size ∣ alignment) :
    Number.roundUp (Bitfield.flush p cursor unit).cursor alignment =
      Number.roundUp (Bitfield.flush q cursor' unit').cursor alignment :=
  Int.le_antisymm (roundUp_flush_le ht hs hpos ha hdvd) (roundUp_flush_le hs ht hpos ha hdvd)

/-- Whether an aggregate can be finished does not depend on its members. -/
theorem Aggregate.map_finish (a : Aggregate) (s t : Sequenced) :
    (a.finish s).map (fun _ => ()) = (a.finish t).map fun _ => () := by
  unfold finish alignmentFrom
  cases a.attributes.requested? with
  | none => rfl
  | some requested =>
    dsimp only
    cases checkAligned requested (a.kind.keyword ++ " " ++ nameOrAnonymous a.name) <;> rfl

end Ends

/-! ## Structs of bitfields -/

section Structs

variable {p q : Profile} {cap : Option Int} {base : Primitive} {x : Extent} {m : Member}
  {c : CheckedField} {cs : List CheckedField}

/-- What a member that is checked comes from. -/
theorem Member.check_eq_ok {width : Json} (type : m.type = .bitfield base width)
    (h : m.check p cap = .ok c) :
    c.member = m ∧ bitfieldOf p m cap base width = .ok c.field ∧
      c.field.checkedWidth = .ok c.width := by
  unfold check at h
  rw [type] at h
  unfold checkField at h
  rw [Failure.within_eq_ok] at h
  obtain ⟨field, hfield, h⟩ := Except.bind_eq_ok.mp h
  obtain ⟨bits, hbits, h⟩ := Except.bind_eq_ok.mp h
  obtain rfl := Except.pure_eq_ok.mp h
  exact ⟨rfl, hfield, hbits⟩

/-- A bitfield without attributes of its own takes the extent of its base type. -/
theorem Member.isOf_of_check {width : Json} (type : m.type = .bitfield base width)
    (hm : m.attributes = .none) (hx : p.primitiveExtent base = .ok x)
    (h : m.check p none = .ok c) : c.IsOf x := by
  obtain ⟨-, hfield, hbits⟩ := Member.check_eq_ok type h
  obtain ⟨natural, -, hnatural, hc⟩ := bitfieldOf_eq_ok hfield
  obtain rfl : x = natural := Except.ok.inj (hx.symm.trans hnatural)
  obtain ⟨-, hnonneg, hfits⟩ := Bitfield.checkedWidth_eq_ok hbits
  have hcap : m.cap none = none := by
    rw [Member.cap, hm]
    rfl
  have hextent : c.field.extent = x := by
    rw [hc, hcap]
    rfl
  rw [hextent] at hfits
  exact ⟨hextent, by rw [hc], hnonneg, hfits⟩

/-- Every field with a width is counted. -/
theorem mem_countedFields (hc : c ∈ cs) (hwidth : c.width ≠ 0) (bit : Int) :
    ∃ start, (c.member.name, start, some c.width) ∈ countedFields x bit cs := by
  induction cs generalizing bit with
  | nil => simp at hc
  | cons d ds ih =>
    rw [countedFields]
    rcases List.mem_cons.mp hc with rfl | hc
    · rw [if_neg hwidth]
      exact ⟨_, List.mem_cons_self⟩
    · obtain ⟨start, hmem⟩ := ih hc (Bitfield.bitAfter x bit d.width)
      refine ⟨start, ?_⟩
      split
      · exact hmem
      · exact List.mem_cons_of_mem _ hmem

/-- **A struct of bitfields** is checked first and placed then. -/
theorem layoutOf_bitfields (hp : p.IsAligned) {a : Aggregate} (hkind : a.kind = .struct)
    (hpack : a.pack = none) (hpacked : a.attributes.packed = false)
    (hmembers : ∀ m ∈ a.members, ∃ base width, m.type = .bitfield base width) :
    layoutOf p (.aggregate a) = Failure.within (a.name.getD "") (do
      let cs ← a.members.mapM (Member.check p none)
      a.finish ((cs.foldl (StructState.pushField p) .start).close p)) := by
  have hcap : a.packCap = .ok none := by
    unfold Aggregate.packCap
    rw [hpack, hpacked]
    rfl
  rw [Aggregate.layoutOf_eq, hkind, hcap]
  show Failure.within _ (sequenceStruct Setting.pure p none _ >>= a.finish) = _
  rw [sequenceStruct_bitfields hp (by simp) hmembers]
  cases a.members.mapM (Member.check p none) <;> rfl

end Structs

/-- What the layout of a struct of bitfields of one base type comes from. -/
theorem exists_counted_of_layoutOf {p : Profile} (hp : p.IsAligned) {base : Primitive} {x : Extent}
    (hx : p.primitiveExtent base = .ok x) (hpos : 0 < x.size) (hsize : x.size = x.alignment)
    {a : Aggregate} (hkind : a.kind = .struct) (hpack : a.pack = none)
    (hpacked : a.attributes.packed = false)
    (hmembers : ∀ m ∈ a.members, m.attributes = .none ∧ ∃ width, m.type = .bitfield base width)
    {r : LayoutResult} (h : layoutOf p (.aggregate a) = .ok r) :
    ∃ cs s, a.members.mapM (Member.check p none) = .ok cs ∧ (∀ c ∈ cs, c.IsOf x) ∧
      StructState.Counted p x (cs.foldl (fun bit c => Bitfield.bitAfter x bit c.width) 0) s ∧
      s.slots.map (fun t => t.placed.fieldView p.fill) = countedFields x 0 cs ∧
      r.direct.map (MemberLayout.fieldView p.fill) =
        (countedFields x 0 cs).filter (fun v => v.1.isSome) ∧
      a.finish (s.close p) = .ok r := by
  have hbitfields : ∀ m ∈ a.members, ∃ base width, m.type = .bitfield base width :=
    fun m hm => ⟨base, (hmembers m hm).2⟩
  rw [layoutOf_bitfields hp hkind hpack hpacked hbitfields, Failure.within_eq_ok] at h
  obtain ⟨cs, hcs, hfinish⟩ := Except.bind_eq_ok.mp h
  have hof : ∀ c ∈ cs, c.IsOf x := by
    intro c hc
    obtain ⟨m, hm, hcheck⟩ := Except.exists_of_mapM_eq_ok hcs c hc
    obtain ⟨hattributes, width, type⟩ := hmembers m hm
    exact Member.isOf_of_check type hattributes hx hcheck
  obtain ⟨hcounted, hslots⟩ := (StructState.counted_start p x).pushFields hpos hsize hof
  replace hslots : (cs.foldl (StructState.pushField p) .start).slots.map
      (fun t => t.placed.fieldView p.fill) = countedFields x 0 cs := hslots
  refine ⟨cs, _, hcs, hof, hcounted, hslots, ?_, hfinish⟩
  have hsequence : sequenceStruct Setting.pure p none (measureMembers Setting.pure p a.members) =
      .ok ((cs.foldl (StructState.pushField p) .start).close p) := by
    rw [sequenceStruct_bitfields hp (by simp) hbitfields, hcs]
    rfl
  rw [direct_of_sequenceStruct hsequence hfinish, ← hslots, List.filter_map, List.map_map]
  refine congrArg (List.map _) (List.filter_congr fun t ht => ?_)
  exact (hcounted.listed t ht).1

/-- The alignment is that of the base type once a field has a name and a width. -/
theorem StructState.Counted.alignment_eq {p : Profile} {x : Extent} {bit : Int} {s : StructState}
    {cs : List CheckedField} {c : CheckedField} (h : s.Counted p x bit)
    (hslots : s.slots.map (fun t => t.placed.fieldView p.fill) = countedFields x 0 cs)
    (hc : c ∈ cs) (hname : c.member.name.isSome = true) (hwidth : c.width ≠ 0) :
    s.alignment = x.alignment := by
  obtain ⟨start, hmem⟩ := mem_countedFields (x := x) hc hwidth 0
  rw [← hslots] at hmem
  obtain ⟨t, ht, hview⟩ := List.mem_map.mp hmem
  obtain ⟨hlisted, halignment⟩ := h.listed t ht
  apply halignment
  have hsame : t.placed.name = c.member.name := congrArg Prod.fst hview
  rw [hlisted, hsame, hname]

/-- Structs that have reached the same bit with the same alignment are finished alike. -/
theorem StructState.Counted.finish_eq {p q : Profile} {x : Extent} {bit : Int}
    {s u : StructState} {a : Aggregate} {r t : LayoutResult} (hs : s.Counted p x bit)
    (hu : u.Counted q x bit) (hpos : 0 < x.size) (hsize : x.size = x.alignment)
    (hpower : Number.isPowerOfTwo x.alignment = true) (hsa : s.alignment = x.alignment)
    (hua : u.alignment = x.alignment) (hr : a.finish (s.close p) = .ok r)
    (ht : a.finish (u.close q) = .ok t) : r.size = t.size ∧ r.alignment = t.alignment := by
  obtain ⟨alignment, hfrom, rfl⟩ := Except.map_eq_ok.mp hr
  obtain ⟨alignment', hfrom', rfl⟩ := Except.map_eq_ok.mp ht
  replace hfrom : a.alignmentFrom x.alignment = .ok alignment := hsa ▸ hfrom
  replace hfrom' : a.alignmentFrom x.alignment = .ok alignment' := hua ▸ hfrom'
  obtain rfl : alignment = alignment' := Except.ok.inj (hfrom.symm.trans hfrom')
  have hpower' := Aggregate.isPowerOfTwo_alignmentFrom hfrom hpower
  have hdvd : x.size ∣ alignment := by
    rw [hsize]
    exact Number.dvd_of_le hpower hpower' (Aggregate.le_alignmentFrom hfrom)
  refine ⟨?_, rfl⟩
  exact roundUp_flush_eq hs.represents hu.represents hpos (Number.pos_of_isPowerOfTwo hpower') hdvd

/-- A struct has a field with a name and a width that is positive. -/
def Aggregate.HasNamedField (a : Aggregate) : Prop :=
  ∃ m ∈ a.members, m.name.isSome = true ∧
    ∃ base width, m.type = .bitfield base (.int width) ∧ 0 < width

/-- Two layouts of a struct of bitfields agree.  The fields with a name start at the same bits and
have the same widths, and if there are any, the layouts have the same size and alignment. -/
structure Aggregate.PacksAlike (a : Aggregate) (p q : Profile) (r t : LayoutResult) : Prop where
  fields : r.direct.map (MemberLayout.fieldView p.fill) =
    t.direct.map (MemberLayout.fieldView q.fill)
  extent : a.HasNamedField → r.size = t.size ∧ r.alignment = t.alignment

section Packings

variable {p q : Profile} {base : Primitive} {x : Extent} {a : Aggregate}

/-- A struct of bitfields is laid out under both packings or refused for the same reason. -/
theorem map_layoutOf_packing (hp : p.IsAligned) (hq : q.IsAligned)
    (hextent : p.primitiveExtent = q.primitiveExtent) (hkind : a.kind = .struct)
    (hpack : a.pack = none) (hpacked : a.attributes.packed = false)
    (hmembers : ∀ m ∈ a.members, m.attributes = .none ∧ ∃ width, m.type = .bitfield base width) :
    (layoutOf p (.aggregate a)).map (fun _ => ()) =
      (layoutOf q (.aggregate a)).map (fun _ => ()) := by
  have hbitfields : ∀ m ∈ a.members, ∃ base width, m.type = .bitfield base width :=
    fun m hm => ⟨base, (hmembers m hm).2⟩
  rw [layoutOf_bitfields hp hkind hpack hpacked hbitfields,
    layoutOf_bitfields hq hkind hpack hpacked hbitfields, Member.check_congr hextent]
  cases a.members.mapM (Member.check q none) with
  | error f => rfl
  | ok cs =>
    show (Failure.within _ (a.finish _)).map _ = (Failure.within _ (a.finish _)).map _
    rw [Failure.map_within, Failure.map_within]
    exact congrArg _ (a.map_finish _ _)

/-- Both layouts of a struct of bitfields are its count of bits. -/
theorem packsAlike_of_layoutOf (hp : p.IsAligned) (hq : q.IsAligned)
    (hextent : p.primitiveExtent = q.primitiveExtent) (hx : p.primitiveExtent base = .ok x)
    (hsize : x.size = x.alignment) (hkind : a.kind = .struct) (hpack : a.pack = none)
    (hpacked : a.attributes.packed = false)
    (hmembers : ∀ m ∈ a.members, m.attributes = .none ∧ ∃ width, m.type = .bitfield base width)
    {r t : LayoutResult} (hr : layoutOf p (.aggregate a) = .ok r)
    (ht : layoutOf q (.aggregate a) = .ok t) : a.PacksAlike p q r t := by
  have hpower := p.isPowerOfTwo_primitiveExtent hp hx
  have hpos : 0 < x.size := by
    rw [hsize]
    exact Number.pos_of_isPowerOfTwo hpower
  obtain ⟨cs, s, hcs, hof, hcounted, hslots, hdirect, hfinish⟩ :=
    exists_counted_of_layoutOf hp hx hpos hsize hkind hpack hpacked hmembers hr
  obtain ⟨cs', u, hcs', -, hcounted', hslots', hdirect', hfinish'⟩ :=
    exists_counted_of_layoutOf hq (hextent ▸ hx) hpos hsize hkind hpack hpacked hmembers ht
  rw [← Member.check_congr hextent, hcs] at hcs'
  obtain rfl : cs = cs' := Except.ok.inj hcs'
  refine ⟨hdirect.trans hdirect'.symm, ?_⟩
  rintro ⟨m, hm, hname, _, width, type, hwidth⟩
  obtain ⟨c, hc, hcheck⟩ := Except.exists_of_mem_of_mapM_eq_ok hcs m hm
  obtain ⟨rfl, hfield, hchecked⟩ := Member.check_eq_ok type hcheck
  have hne : c.width ≠ 0 := by
    obtain ⟨natural, -, -, hfieldEq⟩ := bitfieldOf_eq_ok hfield
    obtain ⟨hbits, -, -⟩ := Bitfield.checkedWidth_eq_ok hchecked
    rw [hfieldEq] at hbits
    obtain rfl := Json.int.inj hbits
    omega
  exact hcounted.finish_eq hcounted' hpos hsize hpower
    (hcounted.alignment_eq hslots hc hname hne) (hcounted'.alignment_eq hslots' hc hname hne)
    hfinish hfinish'

/-- **The two packings agree.**  Let two profiles differ in the packing and the fill direction only,
and let the members of a struct be bitfields of one base type, whose alignment is its size.  Then
the struct lays out under both or fails under both for the same reason, and the layouts agree.
Engines answer alike, whatever they were asked before. -/
theorem layoutOf_packing (hp : p.IsAligned)
    (hpq : q = { p with packing := q.packing, fill := q.fill })
    (hx : p.primitiveExtent base = .ok x) (hsize : x.size = x.alignment)
    (hkind : a.kind = .struct) (hpack : a.pack = none) (hpacked : a.attributes.packed = false)
    (hmembers : ∀ m ∈ a.members, m.attributes = .none ∧ ∃ width, m.type = .bitfield base width) :
    (layoutOf p (.aggregate a)).map (fun _ => ()) = (layoutOf q (.aggregate a)).map (fun _ => ()) ∧
      (∀ r t, layoutOf p (.aggregate a) = .ok r → layoutOf q (.aggregate a) = .ok t →
        a.PacksAlike p q r t) ∧
      (∀ e e' : Engine, e.HasIntegralHistory → e'.HasIntegralHistory →
        (TypeNode.aggregate a).isIntegral = true →
        ((Engine.layout p (.aggregate a)).run e).1.map (fun _ => ()) =
          ((Engine.layout q (.aggregate a)).run e').1.map (fun _ => ())) ∧
      ∀ r t, Engine.MayAnswer p a r → Engine.MayAnswer q a t →
        a.canonical.PacksAlike p q r.canonical t.canonical := by
  have hextent : p.primitiveExtent = q.primitiveExtent := by
    rw [hpq]
    rfl
  have hq : q.IsAligned := by
    rw [hpq]
    exact hp
  have hsame := map_layoutOf_packing hp hq hextent hkind hpack hpacked hmembers
  refine ⟨hsame, fun r t hr ht => ?_, fun e e' he he' hint => ?_, fun r t hr ht => ?_⟩
  · exact packsAlike_of_layoutOf hp hq hextent hx hsize hkind hpack hpacked hmembers hr ht
  · rw [he.map_layout p hint, he'.map_layout q hint, hsame]
  · refine packsAlike_of_layoutOf hp hq hextent (Profile.primitiveExtent_canonical hx) hsize
      (a.canonical_kind.trans hkind) ?_ (a.canonical_attributes ▸ hpacked) ?_ hr.canonical
      ht.canonical
    · rw [a.canonical_pack, hpack, Option.map_none]
    · rw [a.canonical_members, List.forall_mem_map]
      intro m hm
      obtain ⟨hattributes, width, type⟩ := hmembers m hm
      refine ⟨m.canonical_attributes.trans hattributes, width.canonical, ?_⟩
      rw [m.canonical_type, type, TypeNode.canonical]

end Packings

/-- A device register: a full unit, a reset without a name, and fields that share a unit. -/
def register : Aggregate where
  kind := .struct
  members :=
    [⟨.bitfield ⟨"int", some (.int 4), none⟩ (.int 32), some "counter", .none⟩,
     ⟨.bitfield ⟨"int", some (.int 4), none⟩ (.int 5), some "channel", .none⟩,
     ⟨.bitfield ⟨"int", some (.int 4), none⟩ (.int 0), none, .none⟩,
     ⟨.bitfield ⟨"int", some (.int 4), none⟩ (.int 20), some "level", .none⟩,
     ⟨.bitfield ⟨"int", some (.int 4), none⟩ (.int 13), some "limit", .none⟩]
  name := some "register"
  pack := none
  attributes := .none
  origin := .written ["register"]

/-- The fields of a register start at the same bits in units that are filled from the low bit and in
bits packing from the high one: the channel opens a unit, the reset ends it, and the limit has no
room after the level.  Engines agree, too. -/
theorem layoutOf_packing_register :
    ∃ r t, layoutOf .lp64 (.aggregate register) = .ok r ∧
      layoutOf { Profile.lp64 with packing := .bits, fill := .highToLow } (.aggregate register) =
        .ok t ∧
      r.direct.map (MemberLayout.fieldView .lowToHigh) =
        [(some "counter", 0, some 32), (some "channel", 32, some 5), (some "level", 64, some 20),
          (some "limit", 96, some 13)] ∧
      t.direct.map (MemberLayout.fieldView .highToLow) =
        [(some "counter", 0, some 32), (some "channel", 32, some 5), (some "level", 64, some 20),
          (some "limit", 96, some 13)] ∧
      r.size = 16 ∧ t.size = 16 ∧ r.alignment = 4 ∧ t.alignment = 4 ∧
      ∃ r' t', Engine.MayAnswer .lp64 register r' ∧
        Engine.MayAnswer { Profile.lp64 with packing := .bits, fill := .highToLow } register t' ∧
        register.canonical.PacksAlike .lp64
          { Profile.lp64 with packing := .bits, fill := .highToLow } r'.canonical t'.canonical := by
  have hlaid : (layoutOf .lp64 (.aggregate register)).toOption.map
      (fun r => (r.direct.map (MemberLayout.fieldView .lowToHigh), r.size, r.alignment)) =
        some ([(some "counter", 0, some 32), (some "channel", 32, some 5),
          (some "level", 64, some 20), (some "limit", 96, some 13)], 16, 4) := by
    decide +kernel
  obtain ⟨r, hr, hview⟩ := Option.map_eq_some_iff.mp hlaid
  rw [Except.toOption_eq_some] at hr
  obtain ⟨hr_fields, hr_extent⟩ := Prod.mk.inj hview
  obtain ⟨hr_size, hr_alignment⟩ := Prod.mk.inj hr_extent
  have hextent : Profile.lp64.primitiveExtent ⟨"int", some (.int 4), none⟩ = .ok ⟨4, 4, false⟩ :=
    rfl
  have hmembers : ∀ m ∈ register.members, m.attributes = .none ∧
      ∃ width, m.type = .bitfield ⟨"int", some (.int 4), none⟩ width := by
    intro m hm
    simp only [register, List.mem_cons, List.not_mem_nil, or_false] at hm
    rcases hm with rfl | rfl | rfl | rfl | rfl <;> exact ⟨rfl, _, rfl⟩
  obtain ⟨hsame, hplain, -, hengine⟩ := layoutOf_packing (p := .lp64)
    (q := { Profile.lp64 with packing := .bits, fill := .highToLow }) (by decide) rfl hextent rfl
    rfl rfl rfl hmembers
  rw [hr] at hsame
  obtain ⟨t, ht, -⟩ := Except.map_eq_ok.mp hsame.symm
  obtain ⟨hfields, hextents⟩ := hplain r t hr ht
  obtain ⟨hsize, halignment⟩ := hextents ⟨_, List.mem_cons_self, rfl, _, 32, rfl, by decide⟩
  obtain ⟨r', hr', -⟩ := Engine.exists_mayAnswer hr
  obtain ⟨t', ht', -⟩ := Engine.exists_mayAnswer ht
  exact ⟨r, t, hr, ht, hr_fields, hfields.symm.trans hr_fields, hr_size, hsize.symm.trans hr_size,
    hr_alignment, halignment.symm.trans hr_alignment, r', t', hr', ht', hengine r' t' hr' ht'⟩

end RecordLayout
