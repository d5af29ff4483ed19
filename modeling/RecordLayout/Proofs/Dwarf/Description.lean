import RecordLayout.Proofs.Dwarf.Building

/-!
# The entry that an aggregate was built from

An aggregate that is built has one member for each member among the children of its entry, in the
same order.  The type of a member is again an aggregate only if there is one behind the aliases of
the member's entry, and then it was built from the entry that stands for that one.

## Main definitions

* `Describes` relates an aggregate to the entry that it was built from;
* `IsTypeOf` relates a type to a reference that leads to it.

## Main results

* `describes_of_build`: an aggregate that is built is described by its entry;
* `aggregate_of_build`: what is built for the entry of an aggregate is one, if it is defined.
-/

namespace RecordLayout.Dwarf

/-! ## Aggregates and entries -/

/-- The aggregate that the type of a member is, if it is one. -/
def Info.innerAggregate? (info : Info) (c : Die) : Option Die :=
  info.aggregateBehind? (info.typeOf? c)

/-- How a member is described by its entry. -/
structure DescribesMember (info : Info) (x : Member) (c : Die) : Prop where
  name : x.name = c.name?
  plain : c.attributeQuantity? "DW_AT_bit_size" = none →
    ∀ base width, x.type ≠ .bitfield base width
  /-- A bitfield is of a scalar type. -/
  bits : ∀ q, c.attributeQuantity? "DW_AT_bit_size" = some q →
    info.innerAggregate? c = none ∧ ∃ base, x.type = .bitfield base q.constant
  inner : ∀ b, x.type = .aggregate b → ∃ e, info.innerAggregate? c = some e

/-- An aggregate has a member for each member of its entry, and so have the aggregates inside of
it. -/
inductive Describes (info : Info) : Aggregate → Die → Prop
  | intro {a : Aggregate} {d : Die}
      (members : List.Forall₂ (DescribesMember info) a.members (d.children.filter Die.isMember))
      (nested : ∀ x c, (x, c) ∈ a.members.zip (d.children.filter Die.isMember) →
        ∀ b e, x.type = .aggregate b → info.innerAggregate? c = some e → Describes info b e) :
      Describes info a d

/-- How a type follows from a reference that leads to it. -/
structure IsTypeOf (info : Info) (od : Option Die) (node : TypeNode) : Prop where
  aggregate : ∀ a, node = .aggregate a → ∃ e, info.behindAliases od = some e ∧
    e.isAggregate = true ∧ Describes info a (info.canonical e)
  primitive : ∀ q, node = .primitive q → ∃ e, info.behindAliases od = some e ∧ e.isAggregate = false
  bitfield : ∀ base width, node ≠ .bitfield base width

section Types

variable {info : Info} {d e : Die} {od : Option Die} {node : TypeNode}

/-- The entry behind the aliases of one that stands for another. -/
theorem behindAliases_canonical (h : info.behindAliases (some (info.canonical d)) = some e) :
    ∃ e', info.behindAliases (some d) = some e' ∧ e'.isAggregate = e.isAggregate ∧
      info.canonical e' = info.canonical e := by
  cases haggregate : d.isAggregate with
  | false =>
    rw [Info.canonical_of_isAggregate_eq_false haggregate] at h
    exact ⟨e, h, rfl, rfl⟩
  | true =>
    have hplain := Info.isAliasTag_of_isAggregate haggregate
    have hplain' : isAliasTag (info.canonical d).tag = false := by rwa [Info.tag_canonical]
    rw [Info.behindAliases_of_isAliasTag_eq_false hplain'] at h
    obtain rfl := Option.some.inj h
    exact ⟨d, Info.behindAliases_of_isAliasTag_eq_false hplain,
      (info.isAggregate_canonical d).symm, (info.canonical_canonical d).symm⟩

theorem IsTypeOf.of_known (h : info.Known (fun d => IsTypeOf info (some d)) od node) :
    IsTypeOf info od node := by
  cases od with
  | none =>
    obtain rfl : node = .incomplete (.name "void") := h
    exact ⟨nofun, nofun, nofun⟩
  | some d =>
    refine ⟨fun a ha => ?_, fun q hq => ?_, h.bitfield⟩
    · obtain ⟨e, he, haggregate, hdescribes⟩ := h.aggregate a ha
      obtain ⟨e', he', hsame, hcanonical⟩ := behindAliases_canonical he
      exact ⟨e', he', hsame.trans haggregate, hcanonical ▸ hdescribes⟩
    · obtain ⟨e, he, haggregate⟩ := h.primitive q hq
      obtain ⟨e', he', hsame, -⟩ := behindAliases_canonical he
      exact ⟨e', he', hsame.trans haggregate⟩

/-- The aggregate behind a reference that leads to one. -/
theorem IsTypeOf.exists_aggregateBehind? {a : Aggregate} (h : IsTypeOf info od (.aggregate a)) :
    ∃ e, info.aggregateBehind? od = some e ∧ Describes info a e := by
  obtain ⟨e, he, haggregate, hdescribes⟩ := h.aggregate a rfl
  exact ⟨info.canonical e, by simp [Info.aggregateBehind?, he, haggregate], hdescribes⟩

theorem IsTypeOf.aggregateBehind?_eq_none {q : Primitive} (h : IsTypeOf info od (.primitive q)) :
    info.aggregateBehind? od = none := by
  obtain ⟨e, he, haggregate⟩ := h.primitive q rfl
  simp [Info.aggregateBehind?, he, haggregate]

/-- What is built for a member is described by its entry. -/
theorem BuiltMember.describes {c : Die} {x : Member}
    (h : BuiltMember info (info.Known fun d => IsTypeOf info (some d)) c x) :
    DescribesMember info x c ∧ ∀ b e, x.type = .aggregate b →
      info.innerAggregate? c = some e → Describes info b e := by
  cases h with
  | plain known bits =>
    have htype := IsTypeOf.of_known known
    refine ⟨⟨rfl, fun _ => htype.bitfield, fun q hq => absurd (bits.symm.trans hq) nofun, ?_⟩, ?_⟩
    · rintro b rfl
      obtain ⟨e, he, -⟩ := htype.exists_aggregateBehind?
      exact ⟨e, he⟩
    · rintro b e rfl he
      obtain ⟨e', he', hdescribes⟩ := htype.exists_aggregateBehind?
      obtain rfl := Option.some.inj (he.symm.trans he')
      exact hdescribes
  | @bitfield base width known bits =>
    have htype := IsTypeOf.of_known known
    refine ⟨⟨rfl, fun hbits => absurd (bits.symm.trans hbits) nofun, fun q hq => ?_, nofun⟩, nofun⟩
    obtain rfl := Option.some.inj (bits.symm.trans hq)
    exact ⟨htype.aggregateBehind?_eq_none, base, rfl⟩

/-- A scalar has an entry of its own behind it. -/
theorem isTypeOf_scalar (halias : isAliasTag d.tag = false) (haggregate : d.isAggregate = false)
    (hnode : (∃ q, node = .primitive q) ∨ ∃ label, node = .incomplete label) :
    IsTypeOf info (some d) node := by
  have hself : info.behindAliases (some d) = some d :=
    Info.behindAliases_of_isAliasTag_eq_false halias
  rcases hnode with ⟨q, rfl⟩ | ⟨label, rfl⟩
  · exact ⟨nofun, fun _ _ => ⟨d, hself, haggregate⟩, nofun⟩
  · exact ⟨nofun, nofun, nofun⟩

theorem scalarOf_cases (name : String) (d : Die) :
    (∃ q, scalarOf name d = .primitive q) ∨ ∃ label, scalarOf name d = .incomplete label := by
  unfold scalarOf
  split
  · exact .inr ⟨_, rfl⟩
  · exact .inl ⟨_, rfl⟩

/-- An array is neither an aggregate nor a scalar nor a bitfield. -/
theorem isTypeOf_array {element : TypeNode} (h : arrayOf d element = .ok node) :
    IsTypeOf info od node := by
  rcases arrayOf_cases h with ⟨e, dims, rfl⟩ | ⟨e, rfl⟩ <;> exact ⟨nofun, nofun, nofun⟩

/-- **One entry**: what is built for it is its type. -/
theorem isTypeOf_of_builtEntry (hd : d ∈ info.dies) (hcanonical : info.canonical d = d)
    (h : BuiltEntry info (info.Known fun d => IsTypeOf info (some d)) d node) :
    IsTypeOf info (some d) node := by
  cases h with
  | through tag known =>
    have htype := IsTypeOf.of_known known
    refine ⟨fun a ha => ?_, fun q hq => ?_, htype.bitfield⟩
    · obtain ⟨e, he, hrest⟩ := htype.aggregate a ha
      exact ⟨e, Info.behindAliases_alias hd tag he, hrest⟩
    · obtain ⟨e, he, hrest⟩ := htype.primitive q hq
      exact ⟨e, Info.behindAliases_alias hd tag he, hrest⟩
  | base tag =>
    have haggregate : d.isAggregate = false := by rw [Die.isAggregate, tag]; rfl
    exact isTypeOf_scalar (by rw [tag]; rfl) haggregate (scalarOf_cases _ d)
  | enumeration tag =>
    have haggregate : d.isAggregate = false := by rw [Die.isAggregate, tag]; rfl
    exact isTypeOf_scalar (by rw [tag]; rfl) haggregate (scalarOf_cases _ d)
  | pointer tag =>
    have hall : ∀ tag ∈ pointerTags, isAliasTag tag = false ∧ isAggregateTag tag = false := by
      decide
    have hmem : d.tag ∈ pointerTags := by simpa [isPointerTag, List.contains_iff_mem] using tag
    exact isTypeOf_scalar (hall _ hmem).1 (hall _ hmem).2 (.inl ⟨_, rfl⟩)
  | array tag known array_eq => exact isTypeOf_array array_eq
  | declared tag declaration => exact ⟨by rintro _ ⟨⟩, by rintro _ ⟨⟩, by rintro _ _ ⟨⟩⟩
  | aggregate tag definition members_built =>
    refine ⟨?_, by rintro _ ⟨⟩, by rintro _ _ ⟨⟩⟩
    rintro _ ⟨⟩
    have hplain := Info.isAliasTag_of_isAggregate tag
    refine ⟨d, Info.behindAliases_of_isAliasTag_eq_false hplain, tag, ?_⟩
    rw [hcanonical]
    have hdescribes := members_built.flip.imp fun x c (h : BuiltMember _ _ c x) => h.describes
    refine .intro (hdescribes.imp fun x c h => h.1) fun x c hmem b e hb he => ?_
    exact ((List.forall₂_iff_zip.mp hdescribes).2 hmem).2 b e hb he
  | other tag aggregate => exact isTypeOf_scalar tag aggregate (.inr ⟨_, rfl⟩)

/-- **What is built for the entry of an aggregate** is described by the entry that stands for it. -/
theorem describes_of_build (hoffsets : (info.dies.map (·.offset)).Nodup) (hd : d ∈ info.dies)
    (haggregate : d.isAggregate = true) {a : Aggregate}
    (h : ((build info (some d)).run .fresh).1 = .ok (.aggregate a)) :
    Describes info a (info.canonical d) := by
  have htype : IsTypeOf info (some (info.canonical d)) (.aggregate a) :=
    known_of_build (Q := fun d => IsTypeOf info (some d))
      (fun d hd hcanonical _ hnode => isTypeOf_of_builtEntry hd hcanonical hnode) hoffsets hd h
  obtain ⟨e, he, -, hdescribes⟩ := htype.aggregate a rfl
  rw [← info.isAggregate_canonical] at haggregate
  rw [Info.behindAliases_of_isAliasTag_eq_false (Info.isAliasTag_of_isAggregate haggregate)] at he
  obtain rfl := Option.some.inj he
  rwa [info.canonical_canonical] at hdescribes

/-- **What is built for the entry of an aggregate** is an aggregate, unless the entry is only a
declaration. -/
theorem aggregate_of_build (hoffsets : (info.dies.map (·.offset)).Nodup) (hd : d ∈ info.dies)
    (haggregate : d.isAggregate = true) (h : ((build info (some d)).run .fresh).1 = .ok node) :
    (∃ a, node = .aggregate a) ∨ ∃ label, node = .incomplete label := by
  refine known_of_build (Q := fun e node => e.isAggregate = true →
      (∃ a, node = .aggregate a) ∨ ∃ label, node = .incomplete label)
    (fun e _ _ node hnode he => ?_) hoffsets hd h (by rwa [info.isAggregate_canonical])
  rcases hnode.aggregate_cases he with ⟨-, hlabel⟩ | ⟨-, a, ha, -⟩
  · exact .inr ⟨_, hlabel⟩
  · exact .inl ⟨a, ha⟩

end Types

end RecordLayout.Dwarf
