import RecordLayout.Proofs.Dwarf.Verification
import RecordLayout.Proofs.Layout.Promotion

/-!
# Two walks over recorded members

The members that are recorded of a type are listed by one walk over the entries, and the type is
built from the same entries by another.  The first goes into unnamed members itself; the fields of
the second are promoted by the layout.  Where the offsets of the unnamed members are known, both come
to the same names in the same order, and to bitfields of the same widths.

An unnamed member whose offset is not known stops the first walk and not the second.  Such an offset
is recorded as a program that does not reduce to a constant, and a member of a union may have one
too, although it can only be zero there.

## Main definitions

* `Field.outline` and `RecordedMember.outline`: the name of a field and the width of its bits;
* `Info.RecordsOffsets`: every unnamed member has a recorded number as its offset, or is in a union.

## Main results

* `Surveys.outlines`: the named members of a survey are those of the scope;
* `missing_notMem_compareMembers`: no member that the table has is missing;
* `outlines_of_buildType`: both walks list the same members.
-/

namespace RecordLayout

/-- The name of a field and the width of its bits. -/
def Field.outline (f : Field) : String × Option Int := (f.name, f.bits.map (·.width))

namespace Dwarf

/-- The name of a recorded member and the width of its bits. -/
def RecordedMember.outline (e : RecordedMember) : String × Option Int :=
  (e.name, e.bitSize.map Quantity.value)

section Surveys

variable {info : Info} {tag : Label} {rb cb : Int} {cs : List Die} {ms : List MemberLayout}
  {ss : List Sighting}

/-- A named member is recorded with the outline of its place. -/
theorem Sighting.IsListed.outline_recorded {s : Sighting} (hs : s.IsListed) (name : String)
    (base : Int) :
    (recordedMember info s.entry name s.offset s.recordedBase).outline =
      (ScopeEntry.field ⟨name, s.placed.entry base name, tableBelow s.placed.layout⟩).outline :=
  Prod.ext rfl hs.width.symm

/-- **The named members of a survey are those of the scope**, in the same order. -/
theorem Surveys.outlines (h : Surveys info tag rb cb cs ms ss)
    (hdirect : ∀ m ∈ ms, m.promoted = false) (hlisted : ∀ s ∈ ss, s.IsListed) :
    (ss.filterMap (Sighting.recorded? info)).map RecordedMember.outline =
      ((ms.flatMap (MemberLayout.scope cb)).map ScopeEntry.field).map Field.outline := by
  induction h with
  | nil => rfl
  | @named tag rb cb c m cs ms offset ss same named recorded rest ih =>
    rw [List.forall_mem_cons] at hdirect hlisted
    obtain ⟨name, hname⟩ := Option.isSome_iff_exists.mp named
    have hrecorded : (Sighting.mk c offset m rb cb).recorded? info =
        some (recordedMember info c name offset rb) := by
      simp [Sighting.recorded?, hname]
    rw [List.filterMap_cons_some hrecorded, List.flatMap_cons,
      MemberLayout.scope_of_name hdirect.1 (same.trans hname), List.singleton_append,
      List.map_cons, List.map_cons, List.map_cons, ih hdirect.2 hlisted.2]
    exact congrArg (· :: _) (hlisted.1.outline_recorded name cb)
  | @unnamed tag rb cb c inner m n cs ms o fields ss same unnamed plain recorded type layout inside
      rest ihInside ih =>
    rw [List.forall_mem_cons] at hdirect
    rw [List.forall_mem_cons, List.forall_mem_append] at hlisted
    obtain ⟨-, hfields, hrest⟩ := hlisted
    -- The member itself is not recorded, and neither is it in the scope: its fields are in both.
    have hrecorded : (Sighting.mk c (some o) m rb cb).recorded? info = none := by
      simp [Sighting.recorded?, unnamed]
    have hinner := ihInside (fun m hm => (LayoutResult.mem_direct.mp hm).2) hfields
    rw [← LayoutResult.scope_eq] at hinner
    rw [List.filterMap_cons_none hrecorded, List.filterMap_append, List.map_append, hinner,
      ih hdirect.2 hrest, List.flatMap_cons, List.map_append, List.map_append,
      MemberLayout.scope_of_layout hdirect.1 (same.trans unnamed) layout,
      ScopeEntry.map_field_throughAnonymous]

end Surveys

/-! ## Missing members -/

section Missing

variable {p : Profile} {table : NameTable}

theorem memberMismatch?_ne_missing (m : RecordedMember) (e : NameEntry) (name : String) :
    memberMismatch? p m e ≠ some (.missing name) := by
  unfold memberMismatch?
  intro h
  split at h
  · split at h
    · dsimp only at h
      split at h <;> cases h
    · cases h
  · split at h
    · split at h <;> cases h
    · cases h

/-- **No member that the table has is missing.** -/
theorem missing_notMem_compareMembers {ms : List RecordedMember}
    (h : ∀ m ∈ ms, (NameTable.get? m.name table).isSome) (name : String) :
    .missing name ∉ (compareMembers p table ms).2 := by
  induction ms with
  | nil => simp [compareMembers]
  | cons m ms ih =>
    rw [List.forall_mem_cons] at h
    obtain ⟨e, he⟩ := Option.isSome_iff_exists.mp h.1
    unfold compareMembers
    dsimp only
    rw [he]
    dsimp only
    rw [List.mem_append, Option.mem_toList, not_or]
    exact ⟨memberMismatch?_ne_missing m e name, ih h.2⟩

theorem missing_notMem_sizeMismatch? (recorded : Option Quantity) (r : LayoutResult)
    (name : String) : .missing name ∉ (sizeMismatch? recorded r).toList := by
  unfold sizeMismatch?
  intro h
  split at h
  · cases h
  · split at h
    · cases h
    · cases List.mem_singleton.mp h

end Missing

/-! ## Both walks -/

section Types

variable {info : Info} {typeName : String} {p : Profile} {channels : Channels}
  {limit : Option Int} {calls : List Engine.Call}

/-- **Both walks list the same members**: those that are recorded have the names of the named
members of the layout, promoted ones included, in the same order, and they are bitfields of the same
widths. -/
theorem outlines_of_buildType (hinfo : info.IsOrderly) {t : RecordedType} {r : LayoutResult}
    (hbuilt : ((buildType info typeName).run .fresh).1 = .ok t)
    (hlayout : ((Engine.layout p t.node).run ((Engine.make channels limit).replay calls)).1 =
      .ok r) :
    t.members.map RecordedMember.outline = r.fields.map Field.outline := by
  obtain ⟨root, ss, -, -, hsurvey, hmembers, hlisted⟩ :=
    exists_survey_of_buildType hinfo hbuilt hlayout
  rw [hmembers, hsurvey.outlines (fun m hm => (LayoutResult.mem_direct.mp hm).2) hlisted,
    ← LayoutResult.scope_eq, Engine.scope_fields_of_layout hlayout]

/-- The names of the recorded members are in the table of the layout. -/
theorem isSome_get?_of_buildType (hinfo : info.IsOrderly) {t : RecordedType} {r : LayoutResult}
    {table : NameTable} (hbuilt : ((buildType info typeName).run .fresh).1 = .ok t)
    (hlayout : ((Engine.layout p t.node).run ((Engine.make channels limit).replay calls)).1 =
      .ok r)
    (htable : r.nameTable = .ok table) : ∀ m ∈ t.members, (NameTable.get? m.name table).isSome := by
  intro m hm
  have houtline := List.mem_map_of_mem (f := RecordedMember.outline) hm
  rw [outlines_of_buildType hinfo hbuilt hlayout, ← Engine.scope_fields_of_layout hlayout,
    List.map_map] at houtline
  obtain ⟨e, he, hsame⟩ := List.mem_map.mp houtline
  have hname : e.name = m.name := congrArg Prod.fst hsame
  exact hname ▸ LayoutResult.isSome_get?_nameTable htable e he

/-- **The two walks over recorded members see the same**, under any profile and in any engine, and a
verification finds no member missing. -/
theorem walks_agree (hinfo : info.IsOrderly) :
    (∀ t r, ((buildType info typeName).run .fresh).1 = .ok t →
      ((Engine.layout p t.node).run ((Engine.make channels limit).replay calls)).1 = .ok r →
        t.members.map RecordedMember.outline = r.fields.map Field.outline) ∧
      ∀ report, (verify info typeName p ((Engine.make channels limit).replay calls)).outcome =
        .ok report → ∀ name, .missing name ∉ report.mismatches := by
  refine ⟨fun t r hbuilt hlayout => outlines_of_buildType hinfo hbuilt hlayout,
    fun report h name => ?_⟩
  obtain ⟨t, table, hbuilt, hlayout, htable, -, hmismatches⟩ := verify_eq_ok h
  have hfound := isSome_get?_of_buildType hinfo hbuilt hlayout htable
  rw [hmismatches, List.mem_append, not_or]
  exact ⟨missing_notMem_sizeMismatch? t.size report.layout name,
    missing_notMem_compareMembers hfound name⟩

/-- The members of a frame are recorded with the outlines of its fields, the two of the unnamed
union first. -/
theorem walks_agree_frame :
    frame.IsOrderly ∧ ∃ t r, ((buildType frame "struct frame").run .fresh).1 = .ok t ∧
      ((Engine.layout .lp64 t.node).run ((Engine.make [] (some 1)).replay
        [.layout .ilp32 (.primitive ⟨"char", none, none⟩)])).1 = .ok r ∧
      t.members.map RecordedMember.outline =
        [("first", none), ("word", none), ("kind", some 3), ("mode", some 5)] ∧
      t.members.map RecordedMember.outline = r.fields.map Field.outline := by
  have hbuild : ((buildType frame "struct frame").run .fresh).1.toOption.map (fun t =>
        (t.members.map RecordedMember.outline,
          ((Engine.layout .lp64 t.node).run ((Engine.make [] (some 1)).replay
            [.layout .ilp32 (.primitive ⟨"char", none, none⟩)])).1.isOk)) =
      some ([("first", none), ("word", none), ("kind", some 3), ("mode", some 5)], true) := by
    decide +kernel
  refine ⟨isOrderly_frame, ?_⟩
  cases ht : ((buildType frame "struct frame").run .fresh).1 with
  | error f =>
    rw [ht] at hbuild
    cases hbuild
  | ok t =>
    rw [ht] at hbuild
    obtain ⟨houtlines, hok⟩ := Prod.mk.inj (Option.some.inj hbuild)
    cases hr : ((Engine.layout .lp64 t.node).run ((Engine.make [] (some 1)).replay
        [.layout .ilp32 (.primitive ⟨"char", none, none⟩)])).1 with
    | error f =>
      rw [hr] at hok
      cases hok
    | ok r => exact ⟨t, r, rfl, hr, houtlines, (walks_agree isOrderly_frame).1 t r ht hr⟩

end Types

/-! ## An offset that is not known -/

/-- Every unnamed member has a recorded number as its offset, or is a member of a union. -/
def Info.RecordsOffsets (info : Info) : Prop :=
  ∀ d ∈ info.dies, ∀ c ∈ d.children, c.isMember = true → c.name? = none →
    (c.attributeInt? "DW_AT_data_member_location").isSome ∨ d.tag = unionTag

instance (info : Info) : Decidable info.RecordsOffsets :=
  inferInstanceAs (Decidable (∀ d ∈ info.dies, ∀ c ∈ d.children, _ → _ → _ ∨ _))

/-- A union of an unnamed struct, whose offset is recorded as a program that adds zero. -/
def veiled : Info := .ofRoots .little 8
  [.ofUnsigned 1 4,
   .ofUnit structTag 2 [("DW_AT_byte_size", .ofInt 4)] none
    [.ofUnit memberTag 3
      [("DW_AT_name", .text "a"), ("DW_AT_data_member_location", .ofInt 0)] (some 1) []],
   .ofUnit unionTag 4 [("DW_AT_name", .text "U"), ("DW_AT_byte_size", .ofInt 4)] none
    [.ofUnit memberTag 5 [("DW_AT_data_member_location", .ofOctets [0x30, 0x22])] (some 2) []]]

/-- A member of a union whose offset is not a number may be laid out and yet not be recorded: the
field of the struct is in the layout of the union only. -/
theorem walks_disagree_veiled :
    (veiled.dies.map (·.offset)).Nodup ∧ veiled.RecordsOffsets ∧
      (∀ d ∈ veiled.dies, ∀ c ∈ d.children, c.isMember = true → c.name?.isSome →
        c.attributeInt? "DW_AT_bit_size" ≠ some 0) ∧
      ∃ t r table, ((buildType veiled "U").run .fresh).1 = .ok t ∧
        ((Engine.layout .lp64 t.node).run (Engine.make [] none)).1 = .ok r ∧
        r.nameTable = .ok table ∧ t.members.map RecordedMember.outline = [] ∧
        r.fields.map Field.outline = [("a", none)] := by
  have hcheck : ((buildType veiled "U").run .fresh).1.toOption.bind (fun t =>
        ((Engine.layout .lp64 t.node).run (Engine.make [] none)).1.toOption.map fun r =>
          (r.nameTable.isOk, t.members.map RecordedMember.outline, r.fields.map Field.outline)) =
      some (true, [], [("a", none)]) := by
    decide +kernel
  refine ⟨by decide +kernel, by decide +kernel, by decide +kernel, ?_⟩
  obtain ⟨t, ht, hcheck⟩ := Option.bind_eq_some_iff.mp hcheck
  obtain ⟨r, hr, hcheck⟩ := Option.map_eq_some_iff.mp hcheck
  obtain ⟨htable, hlists⟩ := Prod.mk.inj hcheck
  obtain ⟨hrecorded, hfields⟩ := Prod.mk.inj hlists
  cases hnames : r.nameTable with
  | error f =>
    rw [hnames] at htable
    cases htable
  | ok table =>
    exact ⟨t, r, table, Except.toOption_eq_some.mp ht, Except.toOption_eq_some.mp hr, hnames,
      hrecorded, hfields⟩

end Dwarf

end RecordLayout
