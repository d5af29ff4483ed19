import RecordLayout.Dwarf.Placement
import RecordLayout.Proofs.Dwarf.Description
import RecordLayout.Proofs.Layout.Listing

/-!
# Recorded members and their places

A recorded aggregate and a layout of it list the same members in the same order, so the two can be
gone through together, into unnamed members too.  A survey does that.  It keeps two sums: the
recorded offsets of the unnamed members that it has gone into, and the offsets of the same members
in the layout.

## Main definitions

* `Sighting` is a recorded member with its place in the layout;
* `Surveys` goes through an entry and a layout together;
* `Sighting.AgreesWithin` and `Sighting.Agrees` compare what is recorded with the layout, in the
  aggregate that declares a member and in the whole.

## Main results

* `Surveys.unique`: there is only one survey;
* `Surveys.agrees`: what agrees in each aggregate agrees in the whole;
* `exists_survey`: the members that are recorded of an aggregate are the named ones of a survey.
-/

namespace RecordLayout.Dwarf

/-! ## Surveys -/

/-- Whether a member has a place of its own in a layout: an unnamed bitfield has none. -/
def Die.isReported (c : Die) : Bool :=
  c.isMember && (c.name?.isSome || (c.attributeQuantity? "DW_AT_bit_size").isNone)

/-- The members of an aggregate that have a place of their own in a layout. -/
def Die.reported (d : Die) : List Die := d.children.filter Die.isReported

/-- A recorded member with its place in the layout. -/
structure Sighting where
  entry : Die
  /-- The recorded offset in the aggregate that declares the member, where it is known. -/
  offset : Option Int
  /-- The place in the layout of that aggregate. -/
  placed : MemberLayout
  /-- The sum of the recorded offsets of the unnamed members around. -/
  recordedBase : Int
  /-- The sum of their offsets in the layout. -/
  computedBase : Int

/-- Goes through the members of an aggregate, recorded in entries and placed in a layout, and into
unnamed ones. -/
inductive Surveys (info : Info) :
    Label → Int → Int → List Die → List MemberLayout → List Sighting → Prop
  | nil {tag : Label} {rb cb : Int} : Surveys info tag rb cb [] [] []
  | named {tag : Label} {rb cb : Int} {c : Die} {m : MemberLayout} {cs : List Die}
      {ms : List MemberLayout} {offset : Option Int} {ss : List Sighting}
      (same : m.name = c.name?) (named : c.name?.isSome)
      (recorded : memberOffset info c tag = .ok offset)
      (rest : Surveys info tag rb cb cs ms ss) :
      Surveys info tag rb cb (c :: cs) (m :: ms) (⟨c, offset, m, rb, cb⟩ :: ss)
  | unnamed {tag : Label} {rb cb : Int} {c inner : Die} {m : MemberLayout} {n : LayoutResult}
      {cs : List Die} {ms : List MemberLayout} {o : Int} {fields ss : List Sighting}
      (same : m.name = c.name?) (unnamed : c.name? = none)
      (plain : c.attributeQuantity? "DW_AT_bit_size" = none)
      (recorded : memberOffset info c tag = .ok (some o))
      (type : info.innerAggregate? c = some inner) (layout : m.layout = some n)
      (inside : Surveys info inner.tag (rb + o) (cb + m.byteOffset) inner.reported n.direct fields)
      (rest : Surveys info tag rb cb cs ms ss) :
      Surveys info tag rb cb (c :: cs) (m :: ms) (⟨c, some o, m, rb, cb⟩ :: (fields ++ ss))

section Surveys

variable {info : Info} {tag : Label} {rb cb : Int} {cs : List Die} {ms : List MemberLayout}
  {ss ss' : List Sighting}

/-- **There is only one survey** of an aggregate and a layout. -/
theorem Surveys.unique (h : Surveys info tag rb cb cs ms ss)
    (h' : Surveys info tag rb cb cs ms ss') : ss = ss' := by
  induction h generalizing ss' with
  | nil =>
    cases h'
    rfl
  | named same named recorded rest ih =>
    cases h' with
    | named same' named' recorded' rest' =>
      obtain rfl := Except.ok.inj (recorded.symm.trans recorded')
      rw [ih rest']
    | unnamed same' unnamed' =>
      rw [unnamed'] at named
      cases named
  | unnamed same unnamed plain recorded type layout inside rest ihInside ih =>
    cases h' with
    | named same' named' =>
      rw [unnamed] at named'
      cases named'
    | unnamed same' unnamed' plain' recorded' type' layout' inside' rest' =>
      obtain rfl := Option.some.inj (Except.ok.inj (recorded.symm.trans recorded'))
      obtain rfl := Option.some.inj (type.symm.trans type')
      obtain rfl := Option.some.inj (layout.symm.trans layout')
      rw [ihInside inside', ih rest']

end Surveys

/-! ## Agreement -/

namespace Sighting

/-- Whether a member has a name, by which it is compared. -/
def isNamed (s : Sighting) : Bool := s.entry.name?.isSome

/-- Whether a member is recorded as a bitfield. -/
def isBitfield (s : Sighting) : Bool := (s.entry.attributeQuantity? "DW_AT_bit_size").isSome

/-- What is recorded of a place in the aggregate that declares the member is what the layout of that
aggregate says. -/
structure AgreesWithin (info : Info) (fill : FillDirection) (s : Sighting) : Prop where
  plain : s.isBitfield = false → ∀ o, s.offset = some o → o = s.placed.byteOffset
  bits : s.isBitfield = true → ∀ b, bitPosition? info s.entry s.offset = some b →
    b = s.placed.startBit fill

/-- What is recorded of a place in the whole is what the layout says. -/
structure Agrees (info : Info) (fill : FillDirection) (s : Sighting) : Prop where
  plain : s.isBitfield = false → ∀ o, s.offset = some o →
    s.recordedBase + o = s.computedBase + s.placed.byteOffset
  bits : s.isBitfield = true → ∀ b, bitPosition? info s.entry s.offset = some b →
    s.recordedBase * 8 + b = s.computedBase * 8 + s.placed.startBit fill

section Kinds

variable {info : Info} {fill : FillDirection} {s : Sighting}

theorem agrees_iff_of_plain (h : s.isBitfield = false) : s.Agrees info fill ↔
    ∀ o, s.offset = some o → s.recordedBase + o = s.computedBase + s.placed.byteOffset :=
  ⟨fun hs => hs.plain h, fun hs => ⟨fun _ => hs, fun hbits => by simp [h] at hbits⟩⟩

theorem agrees_iff_of_isBitfield (h : s.isBitfield = true) : s.Agrees info fill ↔
    ∀ b, bitPosition? info s.entry s.offset = some b →
      s.recordedBase * 8 + b = s.computedBase * 8 + s.placed.startBit fill :=
  ⟨fun hs => hs.bits h, fun hs => ⟨fun hplain => by simp [h] at hplain, fun _ => hs⟩⟩

end Kinds

theorem AgreesWithin.agrees {info : Info} {fill : FillDirection} {s : Sighting}
    (h : s.AgreesWithin info fill) (hbase : s.recordedBase = s.computedBase) :
    s.Agrees info fill where
  plain hs o ho := by rw [h.plain hs o ho, hbase]
  bits hs b hb := by rw [h.bits hs b hb, hbase]

end Sighting

/-- **What agrees in each aggregate agrees in the whole**: the bases are sums of offsets that
agree. -/
theorem Surveys.agrees {info : Info} {fill : FillDirection} {tag : Label} {rb cb : Int}
    {cs : List Die} {ms : List MemberLayout} {ss : List Sighting}
    (h : Surveys info tag rb cb cs ms ss) (hbase : rb = cb)
    (hss : ∀ s ∈ ss, s.AgreesWithin info fill) : ∀ s ∈ ss, s.Agrees info fill := by
  induction h with
  | nil => simp
  | named same named recorded rest ih =>
    rw [List.forall_mem_cons] at hss ⊢
    exact ⟨hss.1.agrees hbase, ih hbase hss.2⟩
  | unnamed same unnamed plain recorded type layout inside rest ihInside ih =>
    rw [List.forall_mem_cons, List.forall_mem_append] at hss ⊢
    obtain ⟨hself, hinside, hrest⟩ := hss
    have hoffset := hself.plain (by simp [Sighting.isBitfield, plain]) _ rfl
    exact ⟨hself.agrees hbase, ihInside (by rw [hbase, hoffset]) hinside, ih hbase hrest⟩

/-! ## The members that are recorded -/

/-- What is recorded of a named member. -/
def Sighting.recorded? (info : Info) (s : Sighting) : Option RecordedMember :=
  s.entry.name?.map fun name => recordedMember info s.entry name s.offset s.recordedBase

/-- The place of a member is listed as what is recorded. -/
structure Sighting.IsListed (s : Sighting) : Prop where
  name : s.placed.name = s.entry.name?
  /-- A bitfield has the width that is recorded. -/
  width : s.placed.bits.map (·.width) =
    (s.entry.attributeQuantity? "DW_AT_bit_size").map Quantity.value
  shown : s.placed.bits.isSome → s.placed.shownSize.value = s.placed.size

theorem Sighting.IsListed.bits {s : Sighting} (h : s.IsListed) :
    s.placed.bits.isSome = s.isBitfield := by
  have hwidth := congrArg Option.isSome h.width
  rwa [Option.isSome_map, Option.isSome_map] at hwidth

/-- What is assumed of debugging information: entries are told apart by their offsets, the offset of
every unnamed aggregate in the one around it is known, and no named member is a bitfield of width
zero. -/
structure Info.IsOrderly (info : Info) : Prop where
  offsets : (info.dies.map (·.offset)).Nodup
  unnamed : ∀ d ∈ info.dies, ∀ c ∈ d.children, c.isReported = true → c.name? = none →
    ∃ o, memberOffset info c d.tag = .ok (some o)
  widths : ∀ d ∈ info.dies, ∀ c ∈ d.children, c.isMember = true → c.name?.isSome →
    c.attributeInt? "DW_AT_bit_size" ≠ some 0

section Expected

variable {info : Info} {c d : Die} {x : Member} {m : MemberLayout}

/-- The members that one member is recorded as, where `fields` lists those of an aggregate that
starts at a given offset. -/
def expectedOf (info : Info) (fields : Die → Int → Except Failure (List RecordedMember))
    (tag : Label) (base : Int) (c : Die) : Except Failure (List RecordedMember) := do
  let offset ← memberOffset info c tag
  match c.name? with
  | some name => return [recordedMember info c name offset base]
  | none =>
    match (info.behindAliases (info.typeOf? c)).filter Die.isAggregate, offset with
    | some inner, some offset => fields (info.canonical inner) (base + offset)
    | _, _ => return []

theorem expectedMembersTo_succ (depth : Nat) (d : Die) (base : Int) :
    expectedMembersTo info (depth + 1) d base =
      ((d.children.filter Die.isMember).mapM
        (expectedOf info (expectedMembersTo info depth) d.tag base) >>= fun lists =>
          pure lists.flatten) := rfl

theorem expectedOf_eq_ok {fields : Die → Int → Except Failure (List RecordedMember)} {tag : Label}
    {base : Int} {l : List RecordedMember} (h : expectedOf info fields tag base c = .ok l) :
    ∃ offset, memberOffset info c tag = .ok offset ∧
      (∀ name, c.name? = some name → l = [recordedMember info c name offset base]) ∧
      (∀ inner o, c.name? = none → info.innerAggregate? c = some inner → offset = some o →
        fields inner (base + o) = .ok l) ∧
      (c.name? = none → info.innerAggregate? c = none → l = []) := by
  obtain ⟨offset, hoffset, h⟩ := Except.bind_eq_ok.mp h
  refine ⟨offset, hoffset, ?_⟩
  cases hname : c.name? with
  | some name =>
    rw [hname] at h
    obtain rfl := Except.pure_eq_ok.mp h
    refine ⟨?_, nofun, nofun⟩
    rintro _ ⟨⟩
    rfl
  | none =>
    rw [hname] at h
    unfold Info.innerAggregate? Info.aggregateBehind?
    cases hinner : (info.behindAliases (info.typeOf? c)).filter Die.isAggregate with
    | none =>
      rw [hinner] at h
      exact ⟨nofun, nofun, fun _ _ => (Except.pure_eq_ok.mp h).symm⟩
    | some inner =>
      rw [hinner] at h
      refine ⟨nofun, ?_, nofun⟩
      rintro _ o - ⟨⟩ rfl
      exact h

/-- The aggregate that the type of a member is, is an entry. -/
theorem mem_of_innerAggregate? {inner : Die} (h : info.innerAggregate? c = some inner) :
    inner ∈ info.dies := by
  obtain ⟨e, he, rfl⟩ := Option.map_eq_some_iff.mp h
  obtain ⟨hbehind, -⟩ := Option.filter_eq_some_iff.mp he
  exact Info.canonical_mem (Info.mem_of_behindAliases (fun _ => Info.mem_of_typeOf?) hbehind)

/-- A member and its entry have a place of their own in a layout together. -/
theorem DescribesMember.isReported (h : DescribesMember info x c) (hmember : c.isMember = true)
    (hwidth : c.name?.isSome → c.attributeInt? "DW_AT_bit_size" ≠ some 0) :
    x.isReported = c.isReported := by
  unfold Member.isReported Die.isReported
  rw [hmember]
  cases hbits : c.attributeQuantity? "DW_AT_bit_size" with
  | none =>
    have hplain := h.plain hbits
    split
    · exact absurd ‹_› (hplain _ _)
    · simp
  | some q =>
    obtain ⟨-, base, htype⟩ := h.bits q hbits
    rw [htype, h.name]
    cases hname : c.name? with
    | none => simp
    | some name =>
      have hpos : q.value ≠ 0 := by simpa [Die.attributeInt?, hbits, hname] using hwidth
      simp [q.number?_constant, hpos]

/-- A member that is listed by its entry. -/
theorem isListed_of_describes (h : DescribesMember info x c) (hm : x.IsListedAs m)
    (offset : Option Int) (rb cb : Int) : (Sighting.mk c offset m rb cb).IsListed where
  name := hm.name.trans h.name
  width := by
    cases hbits : c.attributeQuantity? "DW_AT_bit_size" with
    | none => simp [hm.plain (h.plain hbits)]
    | some q =>
      obtain ⟨-, base, htype⟩ := h.bits q hbits
      obtain ⟨b, hb, hwidth⟩ := hm.bitfield base _ htype
      rw [q.number?_constant] at hwidth
      rw [hb, Option.map_some, Option.map_some, Option.some.inj hwidth]
  shown := hm.shown

/-- What is known of a member and its entry. -/
def DescribesWith (info : Info) (x : Member) (c : Die) : Prop :=
  DescribesMember info x c ∧ ∀ b e, x.type = .aggregate b → info.innerAggregate? c = some e →
    Describes info b e

section Members

variable {fields : Die → Int → Except Failure (List RecordedMember)} {tag : Label} {rb cb : Int}
  (hfields : ∀ inner ∈ info.dies, ∀ b n rb cb l, Describes info b inner → b.IsListedBy n →
    fields inner rb = .ok l → ∃ ss, Surveys info inner.tag rb cb inner.reported n.direct ss ∧
      l = ss.filterMap (Sighting.recorded? info) ∧ ∀ s ∈ ss, s.IsListed)

include hfields

/-- **One member** is surveyed, whatever comes after it, when the fields of aggregates are. -/
theorem exists_survey_of_member (hx : DescribesWith info x c) (hm : x.IsListedWith m)
    {l : List RecordedMember} (hl : expectedOf info fields tag rb c = .ok l)
    (hunnamed : c.name? = none → ∃ o, memberOffset info c tag = .ok (some o)) :
    ∃ fs : List Sighting,
      (∀ {cs ms ss}, Surveys info tag rb cb cs ms ss →
        Surveys info tag rb cb (c :: cs) (m :: ms) (fs ++ ss)) ∧
      l = fs.filterMap (Sighting.recorded? info) ∧ ∀ s ∈ fs, s.IsListed := by
  obtain ⟨offset, hoffset, hnamed, hinside, -⟩ := expectedOf_eq_ok hl
  have hself : (Sighting.mk c offset m rb cb).IsListed :=
    isListed_of_describes hx.1 hm.1 offset rb cb
  cases hname : c.name? with
  | some name =>
    refine ⟨[⟨c, offset, m, rb, cb⟩], .named hself.name (by simp [hname]) hoffset, ?_, by simpa⟩
    simp [hnamed name hname, Sighting.recorded?, hname]
  | none =>
    obtain ⟨n, hn⟩ := Option.isSome_iff_exists.mp (hm.1.anonymous (hself.name.trans hname))
    obtain ⟨b, hb⟩ := hm.1.nested (by simp [hn])
    obtain ⟨inner, hinner⟩ := hx.1.inner b hb
    obtain ⟨o, ho⟩ := hunnamed hname
    obtain rfl := Except.ok.inj (hoffset.symm.trans ho)
    have hl := hinside inner o hname hinner rfl
    obtain ⟨fs, hfs, rfl, hlisted⟩ := hfields inner (mem_of_innerAggregate? hinner) b n (rb + o)
      (cb + m.byteOffset) l (hx.2 b inner hb hinner) (hm.2 b n hb hn) hl
    have hplain : c.attributeQuantity? "DW_AT_bit_size" = none := by
      cases hq : c.attributeQuantity? "DW_AT_bit_size" with
      | none => rfl
      | some q => exact absurd ((hx.1.bits q hq).1.symm.trans hinner) nofun
    refine ⟨⟨c, some o, m, rb, cb⟩ :: fs, .unnamed hself.name hname hplain ho hinner hn hfs, ?_,
      List.forall_mem_cons.mpr ⟨hself, hlisted⟩⟩
    rw [List.filterMap_cons_none (by simp [Sighting.recorded?, hname])]

/-- The members of one aggregate are surveyed, when the fields of aggregates inside are. -/
theorem exists_survey_of_members {xs : List Member} {cs : List Die}
    {lists : List (List RecordedMember)} {ms : List MemberLayout}
    (hxs : List.Forall₂ (DescribesWith info) xs cs)
    (hlists : List.Forall₂ (fun c l => expectedOf info fields tag rb c = .ok l) cs lists)
    (hms : List.Forall₂ Member.IsListedWith (xs.filter Member.isReported) ms)
    (hmember : ∀ c ∈ cs, c.isMember = true)
    (hunnamed : ∀ c ∈ cs, c.isReported = true → c.name? = none →
      ∃ o, memberOffset info c tag = .ok (some o))
    (hwidths : ∀ c ∈ cs, c.name?.isSome → c.attributeInt? "DW_AT_bit_size" ≠ some 0) :
    ∃ ss, Surveys info tag rb cb (cs.filter Die.isReported) ms ss ∧
      lists.flatten = ss.filterMap (Sighting.recorded? info) ∧ ∀ s ∈ ss, s.IsListed := by
  induction hxs generalizing lists ms with
  | nil =>
    cases hlists
    cases hms
    exact ⟨[], .nil, rfl, by simp⟩
  | @cons x c xs cs hx hxs ih =>
    cases hlists with
    | @cons _ l _ lists hl hlists =>
      rw [List.forall_mem_cons] at hmember hunnamed hwidths
      have hreported := hx.1.isReported hmember.1 hwidths.1
      cases hc : c.isReported with
      | false =>
        obtain ⟨hname, hbits⟩ : c.name? = none ∧
            (c.attributeQuantity? "DW_AT_bit_size").isSome = true := by
          simpa [Die.isReported, hmember.1] using hc
        obtain ⟨q, hq⟩ := Option.isSome_iff_exists.mp hbits
        obtain ⟨-, -, -, -, hnothing⟩ := expectedOf_eq_ok hl
        obtain rfl := hnothing hname (hx.1.bits q hq).1
        rw [List.filter_cons_of_neg (by simp [hreported, hc])] at hms
        rw [List.filter_cons_of_neg (by simp [hc]), List.flatten_cons, List.nil_append]
        exact ih hlists hms hmember.2 hunnamed.2 hwidths.2
      | true =>
        rw [List.filter_cons_of_pos (by rw [hreported, hc])] at hms
        rw [List.filter_cons_of_pos hc]
        cases hms with
        | @cons _ m _ ms hm hms =>
          obtain ⟨fs, hfs, rfl, hlisted⟩ :=
            exists_survey_of_member hfields hx hm hl (hunnamed.1 hc)
          obtain ⟨ss, hss, hrest, hlisted'⟩ := ih hlists hms hmember.2 hunnamed.2 hwidths.2
          refine ⟨fs ++ ss, hfs hss, ?_, List.forall_mem_append.mpr ⟨hlisted, hlisted'⟩⟩
          rw [List.flatten_cons, hrest, List.filterMap_append]

end Members

/-- **The members that are recorded of an aggregate** are the named ones of the survey of it and its
layout. -/
theorem exists_survey (hinfo : info.IsOrderly) {depth : Nat} (hd : d ∈ info.dies) {a : Aggregate}
    {r : LayoutResult} (ha : Describes info a d) (hr : a.IsListedBy r) {rb cb : Int}
    {l : List RecordedMember} (h : expectedMembersTo info depth d rb = .ok l) :
    ∃ ss, Surveys info d.tag rb cb d.reported r.direct ss ∧
      l = ss.filterMap (Sighting.recorded? info) ∧ ∀ s ∈ ss, s.IsListed := by
  induction depth generalizing d a r rb cb l with
  | zero => cases h
  | succ depth ih =>
    rw [expectedMembersTo_succ] at h
    obtain ⟨lists, hlists, h⟩ := Except.bind_eq_ok.mp h
    obtain rfl := Except.pure_eq_ok.mp h
    obtain ⟨members, nested⟩ := ha
    obtain ⟨hlength, hmembers⟩ := List.forall₂_iff_zip.mp members
    have hxs : List.Forall₂ (DescribesWith info) a.members (d.children.filter Die.isMember) :=
      List.forall₂_iff_zip.mpr ⟨hlength, fun hmem => ⟨hmembers hmem, nested _ _ hmem⟩⟩
    have hchild : ∀ c ∈ d.children.filter Die.isMember, c ∈ d.children ∧ c.isMember = true :=
      fun c hc => List.mem_filter.mp hc
    have hreported : (d.children.filter Die.isMember).filter Die.isReported = d.reported := by
      rw [List.filter_filter, Die.reported]
      refine List.filter_congr fun c _ => ?_
      cases hc : c.isMember <;> simp [Die.isReported, hc]
    rw [← hreported]
    exact exists_survey_of_members
      (fun inner hinner b n rb cb l hb hn hl => ih hinner hb hn hl) hxs
      (Except.mapM_eq_ok.mp hlists) (Aggregate.isListedBy_iff.mp hr) (fun c hc => (hchild c hc).2)
      (fun c hc => hinfo.unnamed d hd c (hchild c hc).1)
      (fun c hc => hinfo.widths d hd c (hchild c hc).1 (hchild c hc).2)

end Expected

end RecordLayout.Dwarf
