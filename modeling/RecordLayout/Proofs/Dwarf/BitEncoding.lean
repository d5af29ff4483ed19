import RecordLayout.Proofs.Dwarf.DataModel
import RecordLayout.Proofs.Dwarf.Definition
import RecordLayout.Proofs.Dwarf.Reencoding
import RecordLayout.Proofs.Dwarf.Verification

/-!
# Verification does not depend on how bitfields are recorded

Two binaries that differ in nothing but the way in which some bitfields are recorded are verified
alike.  The types that are built are the same, and so are the layouts.  What remains is the walk
over the recorded members.  There a bitfield has a known byte offset in one encoding only; but what
a comparison looks at is its first bit, and that is the same in both.

A bitfield without a name is where the walks may part: if there were an aggregate behind its type,
the walk would go on inside of it wherever the byte offset is known.  No such bitfield is in an
aggregate that has a layout, so all reports are the same.  But an aggregate that is only declared
may have one, and then the failures may differ (`verify_reencoded_endless`).

## Main definitions

* `RecordedMember.compared` is what a comparison looks at;
* `Info.IsLaidOut` says of an entry that its type has a layout;
* `WalksAlike` is what a walk over related entries needs.

## Main results

* `Info.HasType.exists_behind`: a type is that of the entry behind aliases;
* `expectedMembersTo_view`: the walk over recorded members;
* `compared_recordedMember`: one bitfield in two encodings;
* `verify_reencoded`: two binaries.
-/

namespace RecordLayout

/-- An unnamed member of an aggregate with a layout is an aggregate with one itself, or a
bitfield. -/
theorem Aggregate.IsListedBy.exists_nested {a : Aggregate} {r : LayoutResult} (h : a.IsListedBy r)
    {x : Member} (hx : x ∈ a.members) (hname : x.name = none)
    (hplain : ∀ base width, x.type ≠ .bitfield base width) :
    ∃ b n, x.type = .aggregate b ∧ b.IsListedBy n := by
  have hreported : x.isReported = true := by
    unfold Member.isReported
    split
    · exact absurd ‹_› (hplain _ _)
    · rfl
  obtain ⟨m, -, hm⟩ := (Aggregate.isListedBy_iff.mp h).flip.exists_of_mem_right
    (List.mem_filter.mpr ⟨hx, hreported⟩)
  obtain ⟨n, hn⟩ := Option.isSome_iff_exists.mp (hm.1.anonymous (hm.1.name.trans hname))
  obtain ⟨b, hb⟩ := hm.1.nested (by simp [hn])
  exact ⟨b, n, hb, hm.2 b n hb hn⟩

namespace Dwarf

variable {P : Die → Prop} {info info' : Info} {c c' d d' e : Die} {od : Option Die}
  {node : TypeNode}

/-! ## Entries behind types -/

section Behind

variable {K : Option Die → TypeNode → Prop}

/-- A scalar is built from an entry that is neither an aggregate nor a member, and an aggregate from
that of one. -/
theorem BuiltEntry.sort (h : BuiltEntry info K d node) (halias : isAliasTag d.tag = false) :
    (∀ q, node = .primitive q → d.isAggregate = false ∧ d.tag ≠ memberTag) ∧
      (∀ a, node = .aggregate a → d.isAggregate = true) ∧
        ∀ base width, node ≠ .bitfield base width := by
  have hscalar {name : String} {tag : Label} (htag : d.tag = tag)
      (hno : isAggregateTag tag = false ∧ tag ≠ memberTag) :
      (∀ q, scalarOf name d = .primitive q → d.isAggregate = false ∧ d.tag ≠ memberTag) ∧
        (∀ a, scalarOf name d = .aggregate a → d.isAggregate = true) ∧
          ∀ base width, scalarOf name d ≠ .bitfield base width := by
    have htags : d.isAggregate = false ∧ d.tag ≠ memberTag := by rwa [Die.isAggregate, htag]
    rcases scalarOf_cases name d with ⟨q, hq⟩ | ⟨label, hlabel⟩
    · simp [hq, htags]
    · simp [hlabel]
  cases h with
  | through tag known => exact absurd halias (ne_false_of_eq_true tag)
  | base tag => exact hscalar tag (by decide)
  | enumeration tag => exact hscalar tag (by decide)
  | pointer tag =>
    have hall : ∀ tag ∈ pointerTags, isAggregateTag tag = false ∧ tag ≠ memberTag := by decide
    have htags : d.isAggregate = false ∧ d.tag ≠ memberTag :=
      hall d.tag (List.contains_iff_mem.mp tag)
    simp [pointerOf, htags]
  | array tag known array_eq =>
    rcases arrayOf_cases array_eq with ⟨n, dims, rfl⟩ | ⟨n, rfl⟩ <;> simp
  | declared tag declaration => simp
  | aggregate tag definition members_built => simp [tag]
  | other tag aggregate scalar pointer array => simp

namespace Info.HasType

/-- **A type is that of the entry behind aliases**, unless there is none. -/
theorem exists_behind (h : info.HasType od node) (hod : ∀ d ∈ od, d ∈ info.dies)
    (hnode : node ≠ .incomplete (.name "void")) :
    ∃ e, info.behindAliases od = some e ∧ isAliasTag e.tag = false ∧
      info.HasType (some e) node := by
  obtain ⟨height, hheight⟩ := h
  induction height generalizing od with
  | zero =>
    cases od with
    | none => exact absurd hheight hnode
    | some d => exact hheight.elim
  | succ height ih =>
    cases od with
    | none => exact absurd hheight hnode
    | some d =>
      by_cases halias : isAliasTag d.tag = true
      · have hself : info.canonical d = d :=
          canonical_of_isAggregate_eq_false (isAggregate_of_isAliasTag halias)
        have hbuilt := hasTypeWithin_succ.mp hheight
        rw [hself] at hbuilt
        obtain ⟨e, he, hrest⟩ :=
          ih (fun _ => mem_of_typeOf?) ((builtEntry_iff_of_alias halias).mp hbuilt)
        exact ⟨e, behindAliases_alias (hod d rfl) halias he, hrest⟩
      · have hplain := Bool.eq_false_iff.mpr halias
        exact ⟨d, behindAliases_of_isAliasTag_eq_false hplain, hplain, height + 1, hheight⟩

/-- What is built for an entry that is no alias, from the entry that stands for it. -/
theorem sort (h : info.HasType (some e) node) (halias : isAliasTag e.tag = false) :
    (∀ q, node = .primitive q → e.isAggregate = false ∧ e.tag ≠ memberTag) ∧
      (∀ a, node = .aggregate a → e.isAggregate = true) ∧
        ∀ base width, node ≠ .bitfield base width := by
  rw [← info.tag_canonical] at halias
  have hsort := h.builtEntry.sort halias
  rwa [info.isAggregate_canonical, info.tag_canonical] at hsort

theorem scalar_behind {q : Primitive} (h : info.HasType od (.primitive q))
    (hod : ∀ d ∈ od, d ∈ info.dies) :
    ∃ e, info.behindAliases od = some e ∧ e.isAggregate = false ∧ e.tag ≠ memberTag := by
  obtain ⟨e, he, halias, htype⟩ := h.exists_behind hod nofun
  exact ⟨e, he, (htype.sort halias).1 q rfl⟩

theorem aggregate_behind {a : Aggregate} (h : info.HasType od (.aggregate a))
    (hod : ∀ d ∈ od, d ∈ info.dies) :
    ∃ e, info.aggregateBehind? od = some (info.canonical e) ∧ e.isAggregate = true ∧
      info.HasType (some e) (.aggregate a) := by
  obtain ⟨e, he, halias, htype⟩ := h.exists_behind hod nofun
  have hagg := (htype.sort halias).2.1 a rfl
  exact ⟨e, by simp [aggregateBehind?, he, hagg], hagg, htype⟩

theorem ne_bitfield (h : info.HasType od node) (hod : ∀ d ∈ od, d ∈ info.dies) (base : Primitive)
    (width : Json) : node ≠ .bitfield base width := by
  by_cases hnode : node = .incomplete (.name "void")
  · rw [hnode]
    exact nofun
  · obtain ⟨e, -, halias, htype⟩ := h.exists_behind hod hnode
    exact (htype.sort halias).2.2 base width

end Info.HasType

end Behind

/-- The entry of an aggregate stands for itself, and its type has a layout. -/
structure Info.IsLaidOut (info : Info) (d : Die) : Prop where
  tag : d.isAggregate = true
  self : info.canonical d = d
  aggregate : ∃ a r, info.HasType (some d) (.aggregate a) ∧ a.IsListedBy r

namespace Info.IsLaidOut

/-- A member of an aggregate with a layout was built. -/
theorem exists_member (h : info.IsLaidOut d) (hc : c ∈ d.children) (hmember : c.isMember = true) :
    ∃ (a : Aggregate) (r : LayoutResult) (x : Member), a.IsListedBy r ∧ x ∈ a.members ∧
      BuiltMember info info.HasType c x := by
  obtain ⟨a, r, htype, hlisted⟩ := h.aggregate
  have hbuilt := htype.builtEntry
  rw [h.self] at hbuilt
  rcases hbuilt.aggregate_cases h.tag with ⟨-, hnode⟩ | ⟨-, b, hnode, -, -, hmembers⟩
  · cases hnode
  · obtain rfl := TypeNode.aggregate.inj hnode
    obtain ⟨x, hx, hbuilt⟩ := hmembers.flip.exists_of_mem_right
      (List.mem_filter.mpr ⟨hc, hmember⟩)
    exact ⟨a, r, x, hlisted, hx, hbuilt⟩

/-- The type of a bitfield of an aggregate with a layout is a scalar. -/
theorem scalar_behind (h : info.IsLaidOut d) (hc : c ∈ d.children) (hmember : c.isMember = true)
    (hbits : (c.attributeQuantity? "DW_AT_bit_size").isSome) :
    ∃ e, info.behindAliases (info.typeOf? c) = some e ∧ e.isAggregate = false ∧
      e.tag ≠ memberTag := by
  obtain ⟨a, r, x, -, -, hbuilt⟩ := h.exists_member hc hmember
  cases hbuilt with
  | plain known bits =>
    rw [bits] at hbits
    cases hbits
  | bitfield known bits => exact known.scalar_behind fun _ => mem_of_typeOf?

theorem innerAggregate?_eq_none (h : info.IsLaidOut d) (hc : c ∈ d.children)
    (hmember : c.isMember = true) (hbits : (c.attributeQuantity? "DW_AT_bit_size").isSome) :
    info.innerAggregate? c = none := by
  obtain ⟨e, he, hagg, -⟩ := h.scalar_behind hc hmember hbits
  simp [innerAggregate?, aggregateBehind?, he, hagg]

/-- The aggregate behind an unnamed member has a layout, too. -/
theorem inner (h : info.IsLaidOut d) (hc : c ∈ d.children) (hmember : c.isMember = true)
    (hname : c.name? = none) {inner : Die} (hinner : info.innerAggregate? c = some inner) :
    info.IsLaidOut inner := by
  obtain ⟨a, r, x, hlisted, hx, hbuilt⟩ := h.exists_member hc hmember
  cases hbuilt with
  | plain known bits =>
    have hod : ∀ e ∈ info.typeOf? c, e ∈ info.dies := fun _ => mem_of_typeOf?
    obtain ⟨b, n, hb, hn⟩ := hlisted.exists_nested hx hname (known.ne_bitfield hod)
    dsimp only at hb
    subst hb
    obtain ⟨e, he, hagg, htype⟩ := known.aggregate_behind hod
    obtain rfl := Option.some.inj (hinner.symm.trans he)
    exact ⟨(info.isAggregate_canonical e).trans hagg, info.canonical_canonical e, b, n,
      hasType_canonical.mpr htype, hn⟩
  | bitfield known bits =>
    have hnone := h.innerAggregate?_eq_none hc hmember (by simp [bits])
    rw [hnone] at hinner
    cases hinner

end Info.IsLaidOut

/-! ## The walk over recorded members -/

section Walk

variable {γ : Type}

/-- What a walk over related entries needs in order to come to members that look alike in `view`,
where `Good` holds of the aggregates that it enters: the named members look alike, and no unnamed
bitfield that is recorded in two ways has an aggregate behind its type. -/
structure WalksAlike (P : Die → Prop) (info info' : Info) (Good : Die → Prop)
    (view : RecordedMember → γ) : Prop where
  named : ∀ {d c c' name offset offset'} (base : Int), Good d → c ∈ d.children →
    c.isMember = true → Die.Reencodes P info info' c c' → c.name? = some name →
    memberOffset info c d.tag = .ok offset → memberOffset info' c' d.tag = .ok offset' →
    view (recordedMember info c name offset base) = view (recordedMember info' c' name offset' base)
  inner : ∀ {d c inner}, Good d → c ∈ d.children → c.isMember = true → c.name? = none →
    info.innerAggregate? c = some inner →
    (∀ c', ¬ c.IsReencoded P info info' c') ∧ Good inner

theorem flatten_view (view : RecordedMember → γ)
    (x : Except Failure (List (List RecordedMember))) :
    (x >>= fun lists => pure lists.flatten).map (List.map view) =
      (x.map (List.map (List.map view))).map List.flatten := by
  cases x with
  | error f => rfl
  | ok lists => exact congrArg Except.ok List.map_flatten

variable (h : info.Reencodes P info')

include h

/-- Where the attributes are the same, so is the byte offset. -/
theorem memberOffset_eq (hsame : ∀ name, c'.attribute? name = c.attribute? name) (tag : Label) :
    memberOffset info' c' tag = memberOffset info c tag := by
  rw [memberOffset, memberOffset, hsame, h.addressSize]

/-- The byte offsets of related members are read alike, except for a bitfield that is recorded in
two ways, where both are known or not known without a failure. -/
theorem memberOffset_cases (hc : Die.Reencodes P info info' c c') (tag : Label) :
    (∃ f, memberOffset info c tag = .error f ∧ memberOffset info' c' tag = .error f) ∨
      ∃ offset offset', memberOffset info c tag = .ok offset ∧
        memberOffset info' c' tag = .ok offset' ∧
        (offset' = offset ∨ c.IsReencoded P info info' c') := by
  rcases hc.attributes with hsame | hmoved
  · rw [memberOffset_eq h hsame tag]
    cases hoffset : memberOffset info c tag with
    | error f => exact .inl ⟨f, rfl, rfl⟩
    | ok offset => exact .inr ⟨offset, offset, rfl, rfl, .inl rfl⟩
  · obtain ⟨first, hfirst, hfirst'⟩ := hmoved.place
    obtain ⟨offset, hoffset, -⟩ := hfirst.bitPosition? tag
    obtain ⟨offset', hoffset', -⟩ := hfirst'.bitPosition? tag
    exact .inr ⟨offset, offset', hoffset, hoffset', .inr hmoved⟩

variable {Good : Die → Prop} {view : RecordedMember → γ} (w : WalksAlike P info info' Good view)

include w

/-- One member, where the aggregates inside look alike. -/
theorem expectedOf_view {fields fields' : Die → Int → Except Failure (List RecordedMember)}
    (hfields : ∀ {e e'}, Die.Reencodes P info info' e e' → Good e → ∀ base,
      (fields e base).map (List.map view) = (fields' e' base).map (List.map view))
    (hd : Good d) (hc : c ∈ d.children) (hmember : c.isMember = true)
    (hcc : Die.Reencodes P info info' c c') (base : Int) :
    (expectedOf info fields d.tag base c).map (List.map view) =
      (expectedOf info' fields' d.tag base c').map (List.map view) := by
  unfold expectedOf
  rcases memberOffset_cases h hcc d.tag with ⟨f, hoffset, hoffset'⟩ |
    ⟨offset, offset', hoffset, hoffset', hoffsets⟩
  · rw [hoffset, hoffset']
    rfl
  · rw [hoffset, hoffset', hcc.name?]
    cases hname : c.name? with
    | some name =>
      have hview := w.named base hd hc hmember hcc hname hoffset hoffset'
      exact congrArg (fun m => Except.ok [m]) hview
    | none =>
      have hbehind := rel_filter_isAggregate (h.behindAliases (h.typeOf? hcc))
      rcases exists_of_rel hbehind with ⟨hinner, hinner'⟩ | ⟨e, e', hinner, hinner', he⟩
      · simp only [bind, Except.bind, hinner, hinner']
      · have hsome : info.innerAggregate? c = some (info.canonical e) := by
          rw [Info.innerAggregate?, Info.aggregateBehind?, hinner, Option.map_some]
        -- Inside of an aggregate the byte offset matters, so both encodings must give the same one.
        obtain ⟨hplain, hgood⟩ := w.inner hd hc hmember hname hsome
        obtain rfl := hoffsets.resolve_right (hplain c')
        simp only [bind, Except.bind, hinner, hinner']
        cases offset' with
        | none => rfl
        | some o => exact hfields (h.canonical he) hgood (base + o)

/-- **The walk over recorded members** comes to members that look alike, or to the same failure. -/
theorem expectedMembersTo_view (depth : Nat) (hdd : Die.Reencodes P info info' d d') (hd : Good d)
    (base : Int) :
    (expectedMembersTo info depth d base).map (List.map view) =
      (expectedMembersTo info' depth d' base).map (List.map view) := by
  induction depth generalizing d d' base with
  | zero => rfl
  | succ depth ih =>
    have hmembers : List.Forall₂ (Die.Reencodes P info info') (d.children.filter Die.isMember)
        (d'.children.filter Die.isMember) :=
      List.rel_filter (fun _ _ hc => Bool.eq_iff_iff.mp hc.isMember.symm) hdd.children
    have hall : ∀ c ∈ d.children.filter Die.isMember, c ∈ d.children ∧ c.isMember = true :=
      fun c hc => List.mem_filter.mp hc
    have hlists : (d.children.filter Die.isMember).mapM (fun c =>
          (expectedOf info (expectedMembersTo info depth) d.tag base c).map (List.map view)) =
        (d'.children.filter Die.isMember).mapM (fun c =>
          (expectedOf info' (expectedMembersTo info' depth) d.tag base c).map (List.map view)) := by
      refine Except.mapM_eq_mapM (((List.forall₂_and_left _ _).mpr ⟨hall, hmembers⟩).imp ?_)
      rintro c c' ⟨⟨hc, hmember⟩, hcc⟩
      exact expectedOf_view h w (fun he hgood base => ih he hgood base) hd hc hmember hcc base
    rw [← Except.map_mapM, ← Except.map_mapM] at hlists
    rw [expectedMembersTo_succ, expectedMembersTo_succ, hdd.tag, flatten_view, flatten_view, hlists]

end Walk

/-! ## Comparisons -/

/-- What a comparison looks at: the first bit of a bitfield, and the byte offset of any other
member. -/
def RecordedMember.compared (m : RecordedMember) : String × Option Quantity × Option Int :=
  (m.name, m.bitSize, if m.bitSize.isSome then m.bitOffset else m.byteOffset)

section Comparisons

variable {p : Profile}

theorem memberMismatch?_eq {m m' : RecordedMember} (hm : m.compared = m'.compared) (e : NameEntry) :
    memberMismatch? p m e = memberMismatch? p m' e := by
  obtain ⟨name, byteOffset, bitOffset, bitSize⟩ := m
  obtain ⟨name', byteOffset', bitOffset', bitSize'⟩ := m'
  obtain ⟨hname, hrest⟩ := Prod.mk.inj hm
  obtain ⟨hsize, hplace⟩ := Prod.mk.inj hrest
  dsimp only at hname hsize hplace
  subst hname hsize
  unfold memberMismatch?
  cases bitSize with
  | none =>
    obtain rfl : byteOffset = byteOffset' := hplace
    rfl
  | some q =>
    obtain rfl : bitOffset = bitOffset' := hplace
    rfl

theorem compareMembers_eq {ms ms' : List RecordedMember}
    (hms : ms.map RecordedMember.compared = ms'.map RecordedMember.compared) (table : NameTable) :
    compareMembers p table ms = compareMembers p table ms' := by
  induction ms generalizing ms' with
  | nil =>
    obtain rfl := List.map_eq_nil_iff.mp hms.symm
    rfl
  | cons m ms ih =>
    obtain ⟨m', ms', rfl, hm, hrest⟩ := List.map_eq_cons_iff.mp hms.symm
    have hname : m'.name = m.name := congrArg Prod.fst hm
    unfold compareMembers
    rw [ih hrest.symm, hname]
    simp only [memberMismatch?_eq hm]

theorem compareType_eq {t : RecordedType} {ms : List RecordedMember}
    (hms : t.members.map RecordedMember.compared = ms.map RecordedMember.compared)
    (layout : LayoutResult) :
    compareType p t layout = compareType p { t with members := ms } layout := by
  simp only [compareType, compareMembers_eq hms]

end Comparisons

section Bitfields

variable (h : info.Reencodes P info')

include h

/-- **One bitfield in two encodings** is compared alike, if its base type is the same in both; and a
base type is no member. -/
theorem compared_recordedMember (hcc : Die.Reencodes P info info' c c')
    (hbase : (c.attributeQuantity? "DW_AT_bit_size").isSome →
      ∃ e, info.behindAliases (info.typeOf? c) = some e ∧ e.tag ≠ memberTag)
    {tag : Label} {offset offset' : Option Int} (hoffset : memberOffset info c tag = .ok offset)
    (hoffset' : memberOffset info' c' tag = .ok offset') (name : String) (base : Int) :
    (recordedMember info c name offset base).compared =
      (recordedMember info' c' name offset' base).compared := by
  unfold recordedMember RecordedMember.compared
  dsimp only
  rw [hcc.bitSize]
  rcases hcc.attributes with hsame | hmoved
  · rw [memberOffset_eq h hsame, hoffset] at hoffset'
    obtain rfl := Except.ok.inj hoffset'
    cases hbits : c.attributeQuantity? "DW_AT_bit_size" with
    | none => rfl
    | some q =>
      obtain ⟨e, he, htag⟩ := hbase (by simp [hbits])
      obtain ⟨e', he', hee⟩ : ∃ e', info'.behindAliases (info'.typeOf? c') = some e' ∧
          Die.Reencodes P info info' e e' := by
        rcases exists_of_rel (h.behindAliases (h.typeOf? hcc)) with
          ⟨hnone, -⟩ | ⟨d, d', hd, hd', hdd⟩
        · rw [he] at hnone
          cases hnone
        · rw [he] at hd
          obtain rfl := Option.some.inj hd
          exact ⟨d', hd', hdd⟩
      have hstorage : storageSize? info' c' = storageSize? info c := by
        simp only [storageSize?, he, he', Die.attributeInt?, Die.attributeQuantity?, hsame,
          hee.attribute?_of_tag htag, Option.bind_some]
      have hposition : bitPosition? info' c' offset = bitPosition? info c offset := by
        simp only [bitPosition?, Die.attributeInt?, Die.attributeQuantity?, hsame, hstorage,
          h.order]
      rw [hposition]
  · obtain ⟨first, hfirst, hfirst'⟩ := hmoved.place
    obtain ⟨o, ho, hbit⟩ := hfirst.bitPosition? tag
    obtain ⟨o', ho', hbit'⟩ := hfirst'.bitPosition? tag
    obtain rfl := Except.ok.inj (hoffset.symm.trans ho)
    obtain rfl := Except.ok.inj (hoffset'.symm.trans ho')
    obtain ⟨q, hq⟩ := Option.isSome_iff_exists.mp hmoved.bits
    rw [hq, hbit, hbit']
    rfl

/-- In an aggregate with a layout, all members are compared alike. -/
theorem walksAlike_of_isLaidOut :
    WalksAlike P info info' info.IsLaidOut RecordedMember.compared where
  named base hd hc hmember hcc _ hoffset hoffset' := by
    refine compared_recordedMember h hcc (fun hbits => ?_) hoffset hoffset' _ base
    obtain ⟨e, he, -, htag⟩ := hd.scalar_behind hc hmember hbits
    exact ⟨e, he, htag⟩
  inner hd hc hmember hname hinner := by
    refine ⟨fun c' hmoved => ?_, hd.inner hc hmember hname hinner⟩
    have hnone := hd.innerAggregate?_eq_none hc hmember hmoved.bits
    rw [hnone] at hinner
    cases hinner

omit h in
/-- Where no aggregate is behind a bitfield that is recorded in two ways, unless it has a name, all
walks go the same way. -/
theorem walksAlike_of_permitted (hP : ∀ c, P c → c.name?.isSome ∨ info.innerAggregate? c = none) :
    WalksAlike P info info' (fun _ => True) (fun _ => ()) where
  named _ _ _ _ _ _ _ _ := rfl
  inner _ _ _ hname hinner := by
    refine ⟨fun c' hmoved => ?_, trivial⟩
    rcases hP _ hmoved.permitted with hsome | hnone
    · rw [hname] at hsome
      cases hsome
    · rw [hnone] at hinner
      cases hinner

end Bitfields

/-! ## Verifications -/

section Verify

variable {typeName : String} {p : Profile} {engine : Engine} {root : Die} {b : Builder}

/-- The rest of a verification when a type has been built: the type is laid out, unless its members
cannot be listed, and compared. -/
def verifyBuilt (p : Profile) (t : RecordedType) (members : Except Failure (List RecordedMember))
    (b : Builder) (engine : Engine) : Verification :=
  match members with
  | .error f => ⟨.error f, b, engine⟩
  | .ok ms =>
    let (layout, engine) := (Engine.layout p t.node).run engine
    ⟨layout >>= compareType p { t with members := ms }, b, engine⟩

/-- **A verification builds the type of an entry** and goes on from there. -/
theorem verify_eq (typeName : String) (p : Profile) (engine : Engine) :
    verify info typeName p engine =
      match info.findRoot typeName with
      | .error f => ⟨.error f, .fresh, engine⟩
      | .ok root =>
        match (build info (some (info.canonical root))).run .fresh with
        | (.error f, b) => ⟨.error f, b, engine⟩
        | (.ok node, b) =>
          verifyBuilt p
            ⟨typeName, node, (info.canonical root).attributeQuantity? "DW_AT_byte_size", []⟩
            (expectedMembers info (info.canonical root)) b engine := by
  unfold verify buildType
  rw [BuildM.run_bind, BuildM.run_check]
  cases info.findRoot typeName with
  | error f => rfl
  | ok root =>
    dsimp only
    rw [BuildM.run_bind]
    rcases (build info (some (info.canonical root))).run .fresh with ⟨f | node, b⟩
    · rfl
    · dsimp only
      rw [BuildM.run_bind, BuildM.run_check]
      cases expectedMembers info (info.canonical root) <;> rfl

section Built

variable {t : RecordedType} {members members' : Except Failure (List RecordedMember)}

/-- Members that are compared alike make no difference. -/
theorem verifyBuilt_of_compared (hmembers : members.map (List.map RecordedMember.compared) =
      members'.map (List.map RecordedMember.compared)) :
    verifyBuilt p t members b engine = verifyBuilt p t members' b engine := by
  cases members with
  | error f =>
    cases members' with
    | error f' => rw [Except.error.inj hmembers]
    | ok ms' => cases hmembers
  | ok ms =>
    cases members' with
    | error f' => cases hmembers
    | ok ms' =>
      have hms : ms.map RecordedMember.compared = ms'.map RecordedMember.compared :=
        Except.ok.inj hmembers
      have hcompare : compareType p { t with members := ms } =
          compareType p { t with members := ms' } :=
        funext (compareType_eq (t := { t with members := ms }) hms)
      simp only [verifyBuilt, hcompare]

/-- Members make no difference where there is no layout, as long as they can be listed. -/
theorem verifyBuilt_of_error {f : Failure}
    (hlayout : ((Engine.layout p t.node).run engine).1 = .error f)
    (hmembers : members.map (List.map fun _ => ()) = members'.map (List.map fun _ => ())) :
    verifyBuilt p t members b engine = verifyBuilt p t members' b engine := by
  cases members with
  | error f =>
    cases members' with
    | error f' => rw [Except.error.inj hmembers]
    | ok ms' => cases hmembers
  | ok ms =>
    cases members' with
    | error f' => cases hmembers
    | ok ms' =>
      unfold verifyBuilt
      generalize (Engine.layout p t.node).run engine = out at hlayout
      obtain ⟨_, engine'⟩ := out
      obtain rfl := hlayout
      rfl

/-- Where there is no layout, there is no report. -/
theorem verifyBuilt_ne_ok {f : Failure}
    (hlayout : ((Engine.layout p t.node).run engine).1 = .error f)
    (report : VerifyReport) : (verifyBuilt p t members b engine).outcome ≠ .ok report := by
  cases members with
  | error f' => exact nofun
  | ok ms =>
    unfold verifyBuilt
    generalize (Engine.layout p t.node).run engine = out at hlayout
    obtain ⟨_, engine'⟩ := out
    obtain rfl := hlayout
    exact nofun

end Built

/-- Two verifications are the same, because no type is built, or they build one type from related
entries and go on from there. -/
theorem verify_cases (h : info.Reencodes P info') (typeName : String) (p : Profile)
    (engine : Engine) :
    verify info typeName p engine = verify info' typeName p engine ∨
      ∃ (d d' : Die) (t : RecordedType) (b : Builder),
        d ∈ info.dies ∧ d.isAggregate = true ∧ info.canonical d = d ∧
        Die.Reencodes P info info' d d' ∧
        (build info (some d)).run .fresh = (.ok t.node, b) ∧
        verify info typeName p engine =
          verifyBuilt p t (expectedMembersTo info (depthBound info) d 0) b engine ∧
        verify info' typeName p engine =
          verifyBuilt p t (expectedMembersTo info' (depthBound info) d' 0) b engine := by
  rw [verify_eq, verify_eq]
  rcases h.findRoot typeName with ⟨f, hroot, hroot'⟩ | ⟨root, root', hroot, hroot', hrr⟩
  · rw [hroot, hroot']
    exact .inl rfl
  · obtain ⟨hmem, hagg⟩ := Info.aggregate_of_findRoot hroot
    have hdd := h.canonical hrr
    have hagg' : (info.canonical root).isAggregate = true :=
      (info.isAggregate_canonical root).trans hagg
    have hmember : (info.canonical root).tag ≠ memberTag := by
      intro htag
      have hno : isAggregateTag memberTag = false := by decide
      rw [Die.isAggregate, htag, hno] at hagg'
      cases hagg'
    have hsize : (info'.canonical root').attributeQuantity? "DW_AT_byte_size" =
        (info.canonical root).attributeQuantity? "DW_AT_byte_size" := by
      rw [Die.attributeQuantity?, Die.attributeQuantity?, hdd.attribute?_of_tag hmember]
    rw [hroot, hroot']
    dsimp only
    rw [← build_eq h (.some hdd), hsize]
    rcases hbuilt : (build info (some (info.canonical root))).run .fresh with ⟨f | node, b⟩
    · exact .inl rfl
    · unfold expectedMembers
      rw [h.depthBound]
      exact .inr ⟨info.canonical root, info'.canonical root', _, b, Info.canonical_mem hmem, hagg',
        info.canonical_canonical root, hdd, hbuilt, rfl, rfl⟩

/-- An aggregate that is built and laid out. -/
theorem isLaidOut_of_layout (hoffsets : (info.dies.map (·.offset)).Nodup) (hd : d ∈ info.dies)
    (hagg : d.isAggregate = true) (hself : info.canonical d = d)
    (hbuilt : (build info (some d)).run .fresh = (.ok node, b)) {channels : Channels}
    {limit : Option Int} {calls : List Engine.Call} {r : LayoutResult}
    (hlayout : ((Engine.layout p node).run ((Engine.make channels limit).replay calls)).1 = .ok r) :
    info.IsLaidOut d := by
  have hcalls : ∀ call ∈ ([] : List Builder.Call), call.IsAbout info := List.forall_mem_nil _
  have hnode : ((build info (some d)).run (Builder.fresh.replay info [])).1 = .ok node :=
    congrArg Prod.fst hbuilt
  have htype := (run_build_eq_ok_iff hoffsets hcalls (Info.forall_mem_some hd)).mp hnode
  rcases aggregate_cases_of_build hoffsets hcalls hd hagg hnode with
    ⟨-, hincomplete⟩ | ⟨-, a, ha, -⟩
  · rw [hincomplete] at hlayout
    exact absurd hlayout (Engine.layout_incomplete_ne_ok r)
  · rw [ha] at hlayout htype
    exact ⟨hagg, hself, a, r, htype, Engine.isListedBy_of_layout hlayout⟩

/-- **Two binaries that differ in how bitfields are recorded are verified alike.**  Their reports
are the same.  So is the rest, the failures and what is kept, if no aggregate is behind the type of
a bitfield without a name that is recorded in two ways. -/
theorem verify_reencoded (hoffsets : (info.dies.map (·.offset)).Nodup) (h : info.Reencodes P info')
    (typeName : String) (p : Profile) (channels : Channels) (limit : Option Int)
    (calls : List Engine.Call) :
    (∀ report,
      (verify info typeName p ((Engine.make channels limit).replay calls)).outcome = .ok report ↔
        (verify info' typeName p ((Engine.make channels limit).replay calls)).outcome =
          .ok report) ∧
    ((∀ c, P c → c.name?.isSome ∨ info.innerAggregate? c = none) →
      verify info typeName p ((Engine.make channels limit).replay calls) =
        verify info' typeName p ((Engine.make channels limit).replay calls)) := by
  generalize hengine : (Engine.make channels limit).replay calls = engine
  rcases verify_cases h typeName p engine with
    heq | ⟨d, d', t, b, hd, hagg, hself, hdd, hbuilt, hverify, hverify'⟩
  · rw [heq]
    exact ⟨fun _ => Iff.rfl, fun _ => rfl⟩
  · rw [hverify, hverify']
    cases hlayout : ((Engine.layout p t.node).run engine).1 with
    | ok r =>
      -- All that the walks come to was built and laid out, so `P` is not needed.
      subst hengine
      have hlaid := isLaidOut_of_layout hoffsets hd hagg hself hbuilt hlayout
      have hmembers := expectedMembersTo_view h (walksAlike_of_isLaidOut h) (depthBound info) hdd
        hlaid 0
      rw [verifyBuilt_of_compared hmembers]
      exact ⟨fun _ => Iff.rfl, fun _ => rfl⟩
    | error f =>
      refine ⟨fun report => ?_, fun hP => ?_⟩
      · exact iff_of_false (verifyBuilt_ne_ok hlayout report) (verifyBuilt_ne_ok hlayout report)
      · have hmembers := expectedMembersTo_view h (walksAlike_of_permitted hP) (depthBound info)
          hdd trivial 0
        exact verifyBuilt_of_error hlayout hmembers

end Verify

/-! ## Two pairs of binaries -/

/-- Attributes that are the same but for the place of a bitfield. -/
theorem attribute?_append {tag : Label} {offset : Nat} {addressSize : Int} {hasChildren : Bool}
    {type : Option Nat} {children : List Die} {attributes place place' : List (String × Value)}
    (hplace : ∀ a ∈ place ++ place', a.1 ∈ bitAttributes) {name : String}
    (hname : name ∉ bitAttributes) :
    (Die.mk tag offset addressSize hasChildren (attributes ++ place') type children).attribute?
        name =
      (Die.mk tag offset addressSize hasChildren (attributes ++ place) type children).attribute?
        name := by
  have hnone (as : List (String × Value)) (has : ∀ a ∈ as, a.1 ∈ bitAttributes) :
      as.find? (fun a => a.1 == name) = none := by
    rw [List.find?_eq_none]
    intro a ha heq
    exact hname (beq_iff_eq.mp heq ▸ has a ha)
  rw [List.forall_mem_append] at hplace
  simp only [Die.attribute?, List.find?_append, hnone place hplace.1, hnone place' hplace.2]

/-- A mode of five bits after a kind of three inside of an unnamed struct, recorded at the given
place. -/
def modes (place : List (String × Value)) : Info := .ofRoots .little 8
  [.ofUnsigned 1 4,
   .ofUnit structTag 2 [("DW_AT_byte_size", .ofInt 4)] none
    [.ofUnit memberTag 3
      [("DW_AT_name", .text "kind"), ("DW_AT_bit_size", .ofInt 3), ("DW_AT_data_bit_offset", .ofInt 0)]
      (some 1) [],
     .ofUnit memberTag 4 ([("DW_AT_name", .text "mode"), ("DW_AT_bit_size", .ofInt 5)] ++ place)
      (some 1) []],
   .ofUnit structTag 5 [("DW_AT_name", .text "modes"), ("DW_AT_byte_size", .ofInt 8)] none
    [.ofUnit memberTag 6
      [("DW_AT_name", .text "size"), ("DW_AT_data_member_location", .ofInt 0)] (some 1) [],
     .ofUnit memberTag 7 [("DW_AT_data_member_location", .ofInt 4)] (some 2) []]]

/-- The place of the mode by its own number. -/
def modeBit : List (String × Value) := [("DW_AT_data_bit_offset", .ofInt 3)]

/-- The place of the mode from the high end of storage that is as large as its type. -/
def modeStorage : List (String × Value) :=
  [("DW_AT_data_member_location", .ofInt 0), ("DW_AT_bit_offset", .ofInt 24)]

theorem reencodes_modes :
    Info.Reencodes (fun c => c.name?.isSome = true) (modes modeBit) (modes modeStorage) := by
  have hplace : ∀ a ∈ modeBit ++ modeStorage, a.1 ∈ bitAttributes := by decide
  refine Info.reencodes_ofRoots (.cons ?_ (.cons ?_ (.cons ?_ .nil)))
  · exact .intro rfl rfl rfl rfl rfl (.inl fun _ => rfl) .nil
  · refine .intro rfl rfl rfl rfl rfl (.inl fun _ => rfl) (.cons ?_ (.cons ?_ .nil))
    · exact .intro rfl rfl rfl rfl rfl (.inl fun _ => rfl) .nil
    · refine .intro rfl rfl rfl rfl rfl
        (.inr ⟨rfl, rfl, rfl, fun _ => attribute?_append hplace, 3, .direct rfl rfl, ?_⟩) .nil
      exact @RecordsBit.littleEndian _ _ _ 0 4 5 rfl rfl rfl (by decide +kernel) rfl rfl
  · refine .intro rfl rfl rfl rfl rfl (.inl fun _ => rfl) (.cons ?_ (.cons ?_ .nil))
    · exact .intro rfl rfl rfl rfl rfl (.inl fun _ => rfl) .nil
    · exact .intro rfl rfl rfl rfl rfl (.inl fun _ => rfl) .nil

/-- The two binaries are verified on an engine that was used before, with the same report. -/
theorem verify_reencoded_modes :
    ((modes modeBit).dies.map (·.offset)).Nodup ∧
      Info.Reencodes (fun c => c.name?.isSome = true) (modes modeBit) (modes modeStorage) ∧
      ∃ report,
        (verify (modes modeBit) "modes" .lp64 ((Engine.make [] (some 2)).replay
          [.layout .ilp32 (.primitive ⟨"char", none, none⟩)])).outcome = .ok report ∧
        (verify (modes modeStorage) "modes" .lp64 ((Engine.make [] (some 2)).replay
          [.layout .ilp32 (.primitive ⟨"char", none, none⟩)])).outcome = .ok report ∧
        report.checked = 3 ∧ report.ok = true := by
  have hoffsets : ((modes modeBit).dies.map (·.offset)).Nodup := by decide +kernel
  have hcheck : (match (verify (modes modeBit) "modes" .lp64 ((Engine.make [] (some 2)).replay
        [.layout .ilp32 (.primitive ⟨"char", none, none⟩)])).outcome with
      | .ok report => report.ok && report.checked == 3
      | .error _ => false) = true := by decide +kernel
  have hsame := verify_reencoded hoffsets reencodes_modes "modes" .lp64 [] (some 2)
    [.layout .ilp32 (.primitive ⟨"char", none, none⟩)]
  refine ⟨hoffsets, reencodes_modes, ?_⟩
  cases h : (verify (modes modeBit) "modes" .lp64 ((Engine.make [] (some 2)).replay
      [.layout .ilp32 (.primitive ⟨"char", none, none⟩)])).outcome with
  | error f =>
    rw [h] at hcheck
    cases hcheck
  | ok report =>
    rw [h] at hcheck
    obtain ⟨hok, hchecked⟩ := Bool.and_eq_true_iff.mp hcheck
    exact ⟨report, rfl, (hsame.1 report).mp h, beq_iff_eq.mp hchecked, hok⟩

/-- A struct that is only declared, with an unnamed bit of itself that is recorded at the given
place. -/
def ownBit (place : List (String × Value)) : Info := .ofRoots .little 8
  [.ofUnit structTag 1 [("DW_AT_name", .text "S"), ("DW_AT_declaration", .ofInt 1)] none
    [.ofUnit memberTag 2 ([("DW_AT_bit_size", .ofInt 1)] ++ place) (some 1) []]]

/-- The place of the bit by its own number. -/
def ownBitNumber : List (String × Value) := [("DW_AT_data_bit_offset", .ofInt 0)]

/-- The place of the bit from the high end of storage of its own size. -/
def ownBitStorage : List (String × Value) :=
  [("DW_AT_data_member_location", .ofInt 0), ("DW_AT_byte_size", .ofInt 4),
   ("DW_AT_bit_offset", .ofInt 31)]

/-- The struct has no layout, but where the byte offset of its bit is known, the walk over the
recorded members goes into the struct without end. -/
theorem verify_reencoded_endless :
    ((ownBit ownBitStorage).dies.map (·.offset)).Nodup ∧
      Info.Reencodes (fun _ => True) (ownBit ownBitStorage) (ownBit ownBitNumber) ∧
      (verify (ownBit ownBitStorage) "S" .lp64 (Engine.make [] none)).outcome =
        .error .endlessReference ∧
      (verify (ownBit ownBitNumber) "S" .lp64 (Engine.make [] none)).outcome =
        .error (.ofCause (.incompleteType "struct S")) := by
  have hplace : ∀ a ∈ ownBitStorage ++ ownBitNumber, a.1 ∈ bitAttributes := by decide
  refine ⟨by decide +kernel, Info.reencodes_ofRoots (.cons ?_ .nil), rfl, rfl⟩
  refine .intro rfl rfl rfl rfl rfl (.inl fun _ => rfl) (.cons ?_ .nil)
  refine .intro rfl rfl rfl rfl rfl
    (.inr ⟨trivial, rfl, rfl, fun _ => attribute?_append hplace, 0, ?_, .direct rfl rfl⟩) .nil
  exact @RecordsBit.littleEndian _ _ _ 0 4 1 rfl rfl rfl (by decide +kernel) rfl rfl

end Dwarf

end RecordLayout
