import RecordLayout.Dwarf.Verify
import RecordLayout.Proofs.Dwarf.Survey
import RecordLayout.Proofs.Layout.Names

/-!
# Verification finds what there is to find

A verification compares the members of a recorded aggregate with a layout by name, field by field of
unnamed members, in offsets from the start of the whole.  A survey of the same entry and the same
layout goes through them one by one and needs no names.  Where no dotted name takes the place of a
name of the scope, the two see the same: what is recorded agrees with the layout wherever a report
says so, and no report says otherwise of what agrees in each aggregate.

## Main definitions

* `Die.RecordsSize`: the recorded size of an entry, if there is one, is the given one.

## Main results

* `Surveys.exists_scopeEntry`: a named member that is surveyed has an entry in the scope;
* `memberMismatch?_eq_none_iff`: the comparison of one member;
* `verify_faithful`: the comparison of a type;
* `verify_false_alarm`: a dotted name that takes the place of another one raises a false alarm.
-/

namespace RecordLayout

/-- The first bit of a field in the scope around its own. -/
theorem Bitfield.allocationBit_add (fill : FillDirection) (base offset size bit width : Int) :
    allocationBit fill (base + offset) size bit width =
      base * 8 + allocationBit fill offset size bit width := by
  cases fill <;> simp only [allocationBit] <;> omega

namespace Dwarf

/-! ## Names of the scope -/

section Scope

variable {info : Info} {tag : Label} {rb cb : Int} {cs : List Die} {ms : List MemberLayout}
  {ss : List Sighting}

/-- **A named member that is surveyed has an entry in the scope**, which differs from that of its
place at most in the path. -/
theorem Surveys.exists_scopeEntry (h : Surveys info tag rb cb cs ms ss)
    (hdirect : ∀ m ∈ ms, m.promoted = false) :
    ∀ s ∈ ss, ∀ name, s.entry.name? = some name → ∃ e ∈ ms.flatMap (MemberLayout.scope cb),
      e.name = name ∧
        ∃ path, e.entry = { s.placed.entry s.computedBase name with path } := by
  induction h with
  | nil => simp
  | @named tag rb cb c m cs ms offset ss same named recorded rest ih =>
    rw [List.forall_mem_cons] at hdirect
    rw [List.forall_mem_cons, List.flatMap_cons]
    refine ⟨fun name hname => ?_, fun s hs name hname => ?_⟩
    · rw [MemberLayout.scope_of_name hdirect.1 (same.trans hname)]
      exact ⟨_, List.mem_append_left _ (List.mem_singleton_self _), rfl, [some name], rfl⟩
    · obtain ⟨e, he, hentry⟩ := ih hdirect.2 s hs name hname
      exact ⟨e, List.mem_append_right _ he, hentry⟩
  | @unnamed tag rb cb c inner m n cs ms o fields ss same unnamed plain recorded type layout inside
      rest ihInside ih =>
    rw [List.forall_mem_cons] at hdirect
    rw [List.forall_mem_cons, List.forall_mem_append, List.flatMap_cons]
    refine ⟨fun name hname => ?_, fun s hs name hname => ?_, fun s hs name hname => ?_⟩
    · rw [unnamed] at hname
      cases hname
    · have hfields : ∀ m ∈ n.direct, m.promoted = false := fun m hm => by
        simpa using (List.mem_filter.mp hm).2
      obtain ⟨e, he, hsame, path, hentry⟩ := ihInside hfields s hs name hname
      refine ⟨e.throughAnonymous, List.mem_append_left _ ?_, hsame, none :: path, ?_⟩
      · rw [MemberLayout.scope_of_layout hdirect.1 (same.trans unnamed) layout,
          LayoutResult.scope_eq]
        exact List.mem_map_of_mem he
      · rw [ScopeEntry.throughAnonymous, NameEntry.under, hentry]
    · obtain ⟨e, he, hentry⟩ := ih hdirect.2 s hs name hname
      exact ⟨e, List.mem_append_right _ he, hentry⟩

end Scope

/-! ## Comparisons -/

section Comparisons

variable {info : Info} {p : Profile} {s : Sighting} {table : NameTable}

/-- **One member differs from its entry** unless what is recorded of it agrees with the layout. -/
theorem memberMismatch?_eq_none_iff (hs : s.IsListed) {name : String} {e : NameEntry}
    {path : List (Option String)} (he : e = { s.placed.entry s.computedBase name with path }) :
    memberMismatch? p (recordedMember info s.entry name s.offset s.recordedBase) e = none ↔
      s.Agrees info p.fill := by
  subst he
  have hbits := hs.bits
  unfold memberMismatch? recordedMember MemberLayout.entry
  dsimp only
  cases hq : s.entry.attributeQuantity? "DW_AT_bit_size" with
  | none =>
    rw [Sighting.agrees_iff_of_plain (by simp [Sighting.isBitfield, hq])]
    cases s.offset with
    | none => simp
    | some o => simp
  | some q =>
    have hbitfield : s.isBitfield = true := by simp [Sighting.isBitfield, hq]
    rw [Sighting.agrees_iff_of_isBitfield hbitfield]
    rw [hbitfield] at hbits
    obtain ⟨b, hb⟩ := Option.isSome_iff_exists.mp hbits
    have hstart : Bitfield.allocationBit p.fill (s.computedBase + s.placed.byteOffset)
        s.placed.shownSize.value b.offset b.width =
          s.computedBase * 8 + s.placed.startBit p.fill := by
      rw [Bitfield.allocationBit_add, hs.shown hbits, MemberLayout.startBit, hb]
    cases bitPosition? info s.entry s.offset with
    | none => simp
    | some recorded =>
      simp only [hb, Option.map_some, Option.isSome_some, if_true, Option.getD_some, hstart,
        ite_eq_left_iff, reduceCtorEq, imp_false, Decidable.not_not, Option.some.injEq, forall_eq']
      omega

/-- **The named members of a survey are compared**, each with its own entry: no difference is found
exactly when all of them agree with the layout. -/
theorem compareMembers_of_survey {ss : List Sighting} (hss : ∀ s ∈ ss, s.IsListed)
    (htable : ∀ s ∈ ss, ∀ name, s.entry.name? = some name → ∃ path, NameTable.get? name table =
      some { s.placed.entry s.computedBase name with path }) :
    (compareMembers p table (ss.filterMap (Sighting.recorded? info))).1 =
        ss.countP Sighting.isNamed ∧
      ((compareMembers p table (ss.filterMap (Sighting.recorded? info))).2 = [] ↔
        ∀ s ∈ ss, s.isNamed = true → s.Agrees info p.fill) := by
  induction ss with
  | nil => simp [compareMembers]
  | cons s ss ih =>
    rw [List.forall_mem_cons] at hss htable
    obtain ⟨hcount, hagree⟩ := ih hss.2 htable.2
    cases hname : s.entry.name? with
    | none =>
      have hunnamed : s.isNamed = false := by simp [Sighting.isNamed, hname]
      rw [List.filterMap_cons_none (by simp [Sighting.recorded?, hname]), List.forall_mem_cons,
        List.countP_cons_of_neg (by simp [hunnamed])]
      simp only [hunnamed, Bool.false_eq_true, false_implies, true_and]
      exact ⟨hcount, hagree⟩
    | some name =>
      have hnamed : s.isNamed = true := by simp [Sighting.isNamed, hname]
      have hrecorded : s.recorded? info =
          some (recordedMember info s.entry name s.offset s.recordedBase) := by
        simp [Sighting.recorded?, hname]
      obtain ⟨path, hentry⟩ := htable.1 name hname
      rw [List.filterMap_cons_some hrecorded, List.forall_mem_cons,
        List.countP_cons_of_pos hnamed]
      unfold compareMembers
      dsimp only [recordedMember]
      rw [hentry]
      dsimp only
      refine ⟨by rw [hcount], ?_⟩
      rw [List.append_eq_nil_iff, hagree, Option.toList_eq_nil_iff]
      refine and_congr_left fun _ => ?_
      rw [forall_prop_of_true hnamed]
      exact memberMismatch?_eq_none_iff hss.1 rfl

end Comparisons

/-! ## Verifications -/

/-- The recorded size of an entry, if there is one, is the given one. -/
def Die.RecordsSize (d : Die) (size : Int) : Prop :=
  ∀ q, d.attributeQuantity? "DW_AT_byte_size" = some q → q.value = size

section Verify

variable {info : Info} {typeName : String} {p : Profile}

/-- What a recorded type consists of. -/
theorem buildType_eq_ok {t : RecordedType} (h : ((buildType info typeName).run .fresh).1 = .ok t) :
    ∃ root, info.findRoot typeName = .ok root ∧
      ((build info (some (info.canonical root))).run .fresh).1 = .ok t.node ∧
      expectedMembers info (info.canonical root) = .ok t.members ∧
      t.size = (info.canonical root).attributeQuantity? "DW_AT_byte_size" := by
  obtain ⟨root, _, hroot, h⟩ := BuildM.bind_eq_ok.mp h
  obtain ⟨node, _, hnode, h⟩ := BuildM.bind_eq_ok.mp h
  obtain ⟨members, _, hmembers, h⟩ := BuildM.bind_eq_ok.mp h
  rw [BuildM.run_check] at hroot hmembers
  obtain ⟨hfound, rfl⟩ := Prod.mk.inj hroot
  obtain ⟨hexpected, rfl⟩ := Prod.mk.inj hmembers
  obtain rfl := Except.ok.inj h
  exact ⟨root, hfound, congrArg Prod.fst hnode, hexpected, rfl⟩

/-- **A recorded type and its layout are surveyed together**: the members that are recorded are the
named ones of the survey. -/
theorem exists_survey_of_buildType (hinfo : info.IsOrderly) {channels : Channels}
    {limit : Option Int} {calls : List Engine.Call} {t : RecordedType} {r : LayoutResult}
    (hbuilt : ((buildType info typeName).run .fresh).1 = .ok t)
    (hlayout : ((Engine.layout p t.node).run ((Engine.make channels limit).replay calls)).1 =
      .ok r) :
    ∃ root ss, info.findRoot typeName = .ok root ∧
      t.size = (info.canonical root).attributeQuantity? "DW_AT_byte_size" ∧
      Surveys info (info.canonical root).tag 0 0 (info.canonical root).reported r.direct ss ∧
      t.members = ss.filterMap (Sighting.recorded? info) ∧ ∀ s ∈ ss, s.IsListed := by
  obtain ⟨root, hroot, hnode, hmembers, hsize⟩ := buildType_eq_ok hbuilt
  obtain ⟨hmem, haggregate⟩ := Info.aggregate_of_findRoot hroot
  have hmem' := Info.canonical_mem hmem
  rw [← info.isAggregate_canonical] at haggregate
  -- A type that is only declared has no layout, so what was built is an aggregate.
  obtain ⟨a, ha⟩ : ∃ a, t.node = .aggregate a := by
    rcases aggregate_of_build hinfo.offsets hmem' haggregate hnode with ha | ⟨label, hlabel⟩
    · exact ha
    · rw [hlabel] at hlayout
      exact absurd hlayout (Engine.layout_incomplete_ne_ok _)
  rw [ha] at hnode hlayout
  have hdescribes := describes_of_build hinfo.offsets hmem' haggregate hnode
  rw [info.canonical_canonical] at hdescribes
  obtain ⟨ss, hsurvey, hrecorded, hlisted⟩ :=
    exists_survey hinfo hmem' hdescribes (Engine.isListedBy_of_layout hlayout) hmembers
  exact ⟨root, ss, hroot, hsize, hsurvey, hrecorded, hlisted⟩

/-- What a verification that returns has found. -/
theorem verify_eq_ok {engine : Engine} {report : VerifyReport}
    (h : (verify info typeName p engine).outcome = .ok report) :
    ∃ t table, ((buildType info typeName).run .fresh).1 = .ok t ∧
      ((Engine.layout p t.node).run engine).1 = .ok report.layout ∧
      report.layout.nameTable = .ok table ∧
      report.checked = (compareMembers p table t.members).1 ∧
      report.mismatches =
        (sizeMismatch? t.size report.layout).toList ++ (compareMembers p table t.members).2 := by
  unfold verify at h
  rcases hbuilt : (buildType info typeName).run .fresh with ⟨f | t, builder⟩
  · rw [hbuilt] at h
    cases h
  · rw [hbuilt] at h
    obtain ⟨r, hr, h⟩ := Except.bind_eq_ok.mp h
    obtain ⟨table, htable, rfl⟩ := Except.map_eq_ok.mp h
    exact ⟨t, table, rfl, hr, htable, rfl, rfl⟩

theorem sizeMismatch?_eq_none_iff {d : Die} {r : LayoutResult} :
    sizeMismatch? (d.attributeQuantity? "DW_AT_byte_size") r = none ↔ d.RecordsSize r.size := by
  unfold sizeMismatch? Die.RecordsSize
  cases d.attributeQuantity? "DW_AT_byte_size" with
  | none => simp
  | some q => simp

/-- **A verification raises no false alarm and misses no disagreement that it can see**, where no
dotted name takes the place of another one.  When the recorded size and all places agree in the
aggregates that declare them, the report says so and counts all named members; when the report says
so, the size agrees, and the place of every named member agrees in the whole. -/
theorem verify_faithful (hinfo : info.IsOrderly) {channels : Channels} {limit : Option Int}
    {calls : List Engine.Call} {report : VerifyReport}
    (h : (verify info typeName p ((Engine.make channels limit).replay calls)).outcome = .ok report)
    (hnames : report.layout.NamesApart) :
    ∃ root d ss, info.findRoot typeName = .ok root ∧ d = info.canonical root ∧
      Surveys info d.tag 0 0 d.reported report.layout.direct ss ∧
      (d.RecordsSize report.layout.size → (∀ s ∈ ss, s.AgreesWithin info p.fill) →
        report.ok = true ∧ report.checked = ss.countP Sighting.isNamed) ∧
      (report.ok = true → d.RecordsSize report.layout.size ∧
        ∀ s ∈ ss, s.isNamed = true → s.Agrees info p.fill) := by
  obtain ⟨t, table, hbuilt, hlayout, htable, hchecked, hmismatches⟩ := verify_eq_ok h
  obtain ⟨root, ss, hroot, hsize, hsurvey, hrecorded, hlisted⟩ :=
    exists_survey_of_buildType hinfo hbuilt hlayout
  have hdirect : ∀ m ∈ report.layout.direct, m.promoted = false := fun m hm => by
    simpa using (List.mem_filter.mp hm).2
  have hfound : ∀ s ∈ ss, ∀ name, s.entry.name? = some name → ∃ path,
      NameTable.get? name table = some { s.placed.entry s.computedBase name with path } := by
    intro s hs name hname
    obtain ⟨e, he, rfl, path, hentry⟩ := hsurvey.exists_scopeEntry hdirect s hs name hname
    rw [← LayoutResult.scope_eq] at he
    exact ⟨path, hentry ▸ LayoutResult.get?_nameTable htable hnames e he⟩
  obtain ⟨hcount, hagree⟩ := compareMembers_of_survey hlisted hfound
  rw [← hrecorded] at hcount hagree
  have hok : report.ok = true ↔ (info.canonical root).RecordsSize report.layout.size ∧
      ∀ s ∈ ss, s.isNamed = true → s.Agrees info p.fill := by
    rw [VerifyReport.ok, List.isEmpty_iff, hmismatches, List.append_eq_nil_iff, hagree, hsize,
      Option.toList_eq_nil_iff, sizeMismatch?_eq_none_iff]
  refine ⟨root, _, ss, hroot, rfl, hsurvey, fun hsize hwithin => ⟨hok.mpr ⟨hsize, ?_⟩, ?_⟩, hok.mp⟩
  · exact fun s hs _ => hsurvey.agrees rfl hwithin s hs
  · rw [hchecked, hcount]

end Verify

/-! ## Two binaries -/

/-- An entry of a unit whose addresses have eight bytes. -/
def Die.ofUnit (tag : Label) (offset : Nat) (attributes : List (String × Value))
    (type : Option Nat) (children : List Die) : Die :=
  ⟨tag, offset, 8, !children.isEmpty, attributes, type, children⟩

/-- The entry of an unsigned number. -/
def Die.ofUnsigned (offset : Nat) (size : Int) : Die :=
  .ofUnit baseTag offset
    [("DW_AT_name", .text "unsigned"), ("DW_AT_byte_size", .ofInt size)] none []

/-- A frame: an unnamed union of a word and its first byte, then two bitfields. -/
def frame : Info := .ofRoots .little 8
  [.ofUnsigned 1 1, .ofUnsigned 2 4,
   .ofUnit unionTag 3 [("DW_AT_byte_size", .ofInt 4)] none
    [.ofUnit memberTag 4 [("DW_AT_name", .text "first")] (some 1) [],
     .ofUnit memberTag 5 [("DW_AT_name", .text "word")] (some 2) []],
   .ofUnit structTag 6 [("DW_AT_name", .text "frame"), ("DW_AT_byte_size", .ofInt 8)] none
    [.ofUnit memberTag 7 [("DW_AT_data_member_location", .ofInt 0)] (some 3) [],
     .ofUnit memberTag 8
      [("DW_AT_name", .text "kind"), ("DW_AT_bit_size", .ofInt 3),
       ("DW_AT_data_bit_offset", .ofInt 32)] (some 2) [],
     .ofUnit memberTag 9
      [("DW_AT_name", .text "mode"), ("DW_AT_bit_size", .ofInt 5),
       ("DW_AT_data_bit_offset", .ofInt 35)] (some 2) []]]

/-- A member that is a pair, and one whose own name is spelled as that of a field of the pair. -/
def dottedMembers : List Die :=
  [.ofUnit memberTag 6
    [("DW_AT_name", .text "a"), ("DW_AT_data_member_location", .ofInt 0)] (some 2) [],
   .ofUnit memberTag 7
    [("DW_AT_name", .text "a.y"), ("DW_AT_data_member_location", .ofInt 8)] (some 1) []]

/-- The struct of the two members. -/
def dottedRoot : Die :=
  .ofUnit structTag 5 [("DW_AT_name", .text "S"), ("DW_AT_byte_size", .ofInt 12)] none dottedMembers

/-- The struct with the pair and the type of its fields. -/
def dotted : Info := .ofRoots .little 8
  [.ofUnsigned 1 4,
   .ofUnit structTag 2 [("DW_AT_name", .text "P"), ("DW_AT_byte_size", .ofInt 8)] none
    [.ofUnit memberTag 3
      [("DW_AT_name", .text "x"), ("DW_AT_data_member_location", .ofInt 0)] (some 1) [],
     .ofUnit memberTag 4
      [("DW_AT_name", .text "y"), ("DW_AT_data_member_location", .ofInt 4)] (some 1) []],
   dottedRoot]

/-- Whether the assumptions on debugging information hold can be computed. -/
theorem Info.isOrderly_of_checks {info : Info} (hoffsets : (info.dies.map (·.offset)).Nodup)
    (hunnamed : ∀ d ∈ info.dies, ∀ c ∈ d.children, c.isReported = true → c.name? = none →
      ((memberOffset info c d.tag).toOption.bind id).isSome = true)
    (hwidths : ∀ d ∈ info.dies, ∀ c ∈ d.children, c.isMember = true → c.name?.isSome →
      c.attributeInt? "DW_AT_bit_size" ≠ some 0) : info.IsOrderly where
  offsets := hoffsets
  unnamed d hd c hc hreported hname := by
    obtain ⟨o, ho⟩ := Option.isSome_iff_exists.mp (hunnamed d hd c hc hreported hname)
    obtain ⟨_, hoffset, rfl⟩ := Option.bind_eq_some_iff.mp ho
    exact ⟨o, Except.toOption_eq_some.mp hoffset⟩
  widths := hwidths

theorem isOrderly_frame : frame.IsOrderly :=
  Info.isOrderly_of_checks (by decide +kernel) (by decide +kernel) (by decide +kernel)

/-- The frame is verified on an engine that was used before, and all its members agree. -/
theorem verify_faithful_frame :
    frame.IsOrderly ∧ ∃ report,
      (verify frame "struct frame" .lp64 ((Engine.make [] (some 2)).replay
        [.layout .ilp32 (.primitive ⟨"char", none, none⟩)])).outcome = .ok report ∧
      report.layout.NamesApart ∧ ∃ root d ss, frame.findRoot "struct frame" = .ok root ∧
        d = frame.canonical root ∧
        Surveys frame d.tag 0 0 d.reported report.layout.direct ss ∧
        ∀ s ∈ ss, s.isNamed = true → s.Agrees frame .lowToHigh := by
  have hcheck : (match (verify frame "struct frame" .lp64 ((Engine.make [] (some 2)).replay
        [.layout .ilp32 (.primitive ⟨"char", none, none⟩)])).outcome with
      | .ok report => report.ok && (report.layout.scope 0).all fun e => !e.name.toList.contains '.'
      | .error _ => false) = true := by decide +kernel
  refine ⟨isOrderly_frame, ?_⟩
  cases h : (verify frame "struct frame" .lp64 ((Engine.make [] (some 2)).replay
      [.layout .ilp32 (.primitive ⟨"char", none, none⟩)])).outcome with
  | error f =>
    rw [h] at hcheck
    cases hcheck
  | ok report =>
    rw [h] at hcheck
    obtain ⟨hok, hdots⟩ := Bool.and_eq_true_iff.mp hcheck
    have hnames : report.layout.NamesApart :=
      LayoutResult.namesApart_of_no_dot (by simpa using hdots)
    obtain ⟨root, d, ss, hroot, hd, hsurvey, -, hagree⟩ :=
      verify_faithful isOrderly_frame h hnames
    exact ⟨report, rfl, hnames, root, d, ss, hroot, hd, hsurvey, (hagree hok).2⟩

theorem isOrderly_dotted : dotted.IsOrderly :=
  Info.isOrderly_of_checks (by decide +kernel) (by decide +kernel) (by decide +kernel)

/-- The members of the struct are laid out where they are recorded, and yet one is reported: its
name leads to the field of the pair. -/
theorem verify_false_alarm :
    dotted.IsOrderly ∧ dotted.findRoot "S" = .ok dottedRoot ∧
      dotted.canonical dottedRoot = dottedRoot ∧ ∃ report ss,
        (verify dotted "S" .lp64 (Engine.make [] none)).outcome = .ok report ∧
        Surveys dotted structTag 0 0 dottedRoot.reported report.layout.direct ss ∧
        dottedRoot.RecordsSize report.layout.size ∧
        (∀ s ∈ ss, s.AgreesWithin dotted .lowToHigh) ∧
        report.mismatches = [.offset "a.y" 8 4] := by
  have hcheck : (match (verify dotted "S" .lp64 (Engine.make [] none)).outcome with
      | .ok report =>
        decide (report.mismatches = [.offset "a.y" 8 4]) && report.layout.size == 12 &&
          report.layout.direct.map (fun m => (m.name, m.byteOffset)) ==
            [(some "a", 0), (some "a.y", 8)]
      | .error _ => false) = true := by decide +kernel
  refine ⟨isOrderly_dotted, rfl, rfl, ?_⟩
  cases h : (verify dotted "S" .lp64 (Engine.make [] none)).outcome with
  | error f =>
    rw [h] at hcheck
    cases hcheck
  | ok report =>
    rw [h] at hcheck
    simp only [Bool.and_eq_true, decide_eq_true_eq, beq_iff_eq] at hcheck
    obtain ⟨⟨hmismatches, hsize⟩, hplaces⟩ := hcheck
    obtain ⟨m, ms, hdirect, hm, hms⟩ := List.map_eq_cons_iff.mp hplaces
    obtain ⟨m', ms', rfl, hm', hnil⟩ := List.map_eq_cons_iff.mp hms
    obtain rfl := List.map_eq_nil_iff.mp hnil
    obtain ⟨hname, hoffset⟩ := Prod.mk.inj hm
    obtain ⟨hname', hoffset'⟩ := Prod.mk.inj hm'
    have hsurvey : Surveys dotted structTag 0 0 dottedMembers [m, m'] _ :=
      .named hname rfl rfl (.named hname' rfl rfl .nil)
    refine ⟨report, _, rfl, hdirect ▸ hsurvey, ?_, ?_, hmismatches⟩
    · rintro _ ⟨⟩
      exact hsize.symm
    · rw [List.forall_mem_cons, List.forall_mem_singleton]
      refine ⟨⟨fun _ o ho => ?_, fun h => absurd h Bool.false_ne_true⟩,
        ⟨fun _ o ho => ?_, fun h => absurd h Bool.false_ne_true⟩⟩
      · exact (Option.some.inj ho).symm.trans hoffset.symm
      · exact (Option.some.inj ho).symm.trans hoffset'.symm

end Dwarf

end RecordLayout
