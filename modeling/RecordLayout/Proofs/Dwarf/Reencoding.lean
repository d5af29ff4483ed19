import Mathlib.Data.Option.Basic
import RecordLayout.Dwarf.Placement
import RecordLayout.Proofs.Dwarf.Building

/-!
# Two ways to record a bitfield

The place of a bitfield is recorded in one of two ways: as the number of bits in front of it, or as
a piece of storage at a byte offset and a number of bits inside of that storage.  The bits inside are
counted from the high end, so with the low octet first the size of the storage is needed, which may
be that of the base type.

This module relates information of two binaries that differ in nothing but the way in which some
bitfields are recorded.  What is found by name, what stands for what and what is behind an alias is
related entry by entry, and the types that are built are the same, failures included, because no
type depends on a place.

## Main definitions

* `RecordsBit` says where the first bit of a bitfield is recorded, in either way;
* `Die.Reencodes` and `Info.Reencodes` relate entries and whole information.

## Main results

* `RecordsBit.bitPosition?`: what is recorded in either way is read in the same way;
* `Info.reencodes_ofRoots`: a forest of entries is related as its roots are;
* `Info.Reencodes.canonical`, `Info.Reencodes.behindAliases`, `Info.Reencodes.findRoot`: what is
  found is related;
* `buildTo_eq`: the types that are built are the same.
-/

namespace RecordLayout.Dwarf

/-! ## Encodings -/

/-- The attributes that record the place of a bitfield. -/
def bitAttributes : List String :=
  ["DW_AT_data_bit_offset", "DW_AT_data_member_location", "DW_AT_byte_size", "DW_AT_bit_offset"]

/-- The first bit of a bitfield is recorded: by its own number, or by a number of bits from the high
end of storage at a byte offset. -/
inductive RecordsBit (info : Info) (c : Die) (first : Int) : Prop
  | direct (bit : c.attributeInt? "DW_AT_data_bit_offset" = some first)
      (location : c.attribute? "DW_AT_data_member_location" = none) : RecordsBit info c first
  | littleEndian {o size width : Int} (order : info.order = .little)
      (bit : c.attributeInt? "DW_AT_data_bit_offset" = none)
      (location : (c.attribute? "DW_AT_data_member_location").bind Value.asInt? = some o)
      (storage : storageSize? info c = some size)
      (bits : c.attributeInt? "DW_AT_bit_size" = some width)
      (offset : c.attributeInt? "DW_AT_bit_offset" = some (8 * o + 8 * size - first - width)) :
      RecordsBit info c first
  | bigEndian {o width : Int} (order : info.order = .big)
      (bit : c.attributeInt? "DW_AT_data_bit_offset" = none)
      (location : (c.attribute? "DW_AT_data_member_location").bind Value.asInt? = some o)
      (bits : c.attributeInt? "DW_AT_bit_size" = some width)
      (offset : c.attributeInt? "DW_AT_bit_offset" = some (first - 8 * o)) :
      RecordsBit info c first

theorem memberOffset_of_asInt? {info : Info} {c : Die} {o : Int} (tag : Label)
    (h : (c.attribute? "DW_AT_data_member_location").bind Value.asInt? = some o) :
    memberOffset info c tag = .ok (some o) := by
  obtain ⟨v, hv, ho⟩ := Option.bind_eq_some_iff.mp h
  unfold memberOffset
  rw [hv]
  dsimp only
  rw [ho]

/-- **What is recorded in either way is read alike.** -/
theorem RecordsBit.bitPosition? {info : Info} {c : Die} {first : Int} (h : RecordsBit info c first)
    (tag : Label) : ∃ offset, memberOffset info c tag = .ok offset ∧
      Dwarf.bitPosition? info c offset = some first := by
  cases h with
  | direct bit location =>
    refine ⟨if tag = unionTag then some 0 else none, ?_, ?_⟩
    · rw [memberOffset, location]
    · rw [Dwarf.bitPosition?, bit]
  | @littleEndian o size width order bit location storage bits offset =>
    refine ⟨some o, memberOffset_of_asInt? tag location, ?_⟩
    have hsum : o * 8 + size * 8 - (8 * o + 8 * size - first - width) - width = first := by omega
    simp [Dwarf.bitPosition?, bit, bits, offset, storage, order, hsum]
  | @bigEndian o width order bit location bits offset =>
    refine ⟨some o, memberOffset_of_asInt? tag location, ?_⟩
    have hsum : o * 8 + (first - 8 * o) = first := by omega
    simp [Dwarf.bitPosition?, bit, bits, offset, order, hsum]

/-! ## Entries -/

variable {P : Die → Prop} {info info' : Info} {c c' d d' : Die} {od od' : Option Die}

/-- One bitfield is recorded in two ways; `P` is what is asked of such bitfields. -/
structure Die.IsReencoded (P : Die → Prop) (info info' : Info) (c c' : Die) : Prop where
  permitted : P c
  tag : c.tag = memberTag
  bits : (c.attributeQuantity? "DW_AT_bit_size").isSome
  others : ∀ name, name ∉ bitAttributes → c'.attribute? name = c.attribute? name
  place : ∃ first, RecordsBit info c first ∧ RecordsBit info' c' first

/-- Two entries differ in nothing but the way in which some bitfields below them, or they
themselves, are recorded. -/
inductive Die.Reencodes (P : Die → Prop) (info info' : Info) : Die → Die → Prop
  | intro {d d' : Die} (tag : d'.tag = d.tag) (offset : d'.offset = d.offset)
      (addressSize : d'.addressSize = d.addressSize) (hasChildren : d'.hasChildren = d.hasChildren)
      (type : d'.type = d.type)
      (attributes : (∀ name, d'.attribute? name = d.attribute? name) ∨
        Die.IsReencoded P info info' d d')
      (children : List.Forall₂ (Reencodes P info info') d.children d'.children) :
      Reencodes P info info' d d'

/-- The information of two binaries differs in nothing but the way in which some bitfields are
recorded. -/
structure Info.Reencodes (P : Die → Prop) (info info' : Info) : Prop where
  order : info'.order = info.order
  addressSize : info'.addressSize = info.addressSize
  dies : List.Forall₂ (Die.Reencodes P info info') info.dies info'.dies

namespace Die.Reencodes

variable {name : String}

theorem tag (h : Reencodes P info info' d d') : d'.tag = d.tag := by
  cases h
  assumption

theorem offset (h : Reencodes P info info' d d') : d'.offset = d.offset := by
  cases h
  assumption

theorem addressSize (h : Reencodes P info info' d d') : d'.addressSize = d.addressSize := by
  cases h
  assumption

theorem hasChildren (h : Reencodes P info info' d d') : d'.hasChildren = d.hasChildren := by
  cases h
  assumption

theorem type (h : Reencodes P info info' d d') : d'.type = d.type := by
  cases h
  assumption

theorem attributes (h : Reencodes P info info' d d') :
    (∀ name, d'.attribute? name = d.attribute? name) ∨ IsReencoded P info info' d d' := by
  cases h
  assumption

theorem children (h : Reencodes P info info' d d') :
    List.Forall₂ (Reencodes P info info') d.children d'.children := by
  cases h
  assumption

/-- Attributes that do not record a place are the same. -/
theorem attribute? (h : Reencodes P info info' d d') (hname : name ∉ bitAttributes) :
    d'.attribute? name = d.attribute? name := by
  rcases h.attributes with hsame | hmoved
  · exact hsame name
  · exact hmoved.others name hname

/-- Entries that are no members have the same attributes. -/
theorem attribute?_of_tag (h : Reencodes P info info' d d') (htag : d.tag ≠ memberTag) :
    d'.attribute? name = d.attribute? name := by
  rcases h.attributes with hsame | hmoved
  · exact hsame name
  · exact absurd hmoved.tag htag

theorem bitSize (h : Reencodes P info info' d d') :
    d'.attributeQuantity? "DW_AT_bit_size" = d.attributeQuantity? "DW_AT_bit_size" := by
  rw [attributeQuantity?, attributeQuantity?, h.attribute? (by decide)]

theorem name? (h : Reencodes P info info' d d') : d'.name? = d.name? := by
  rw [Die.name?, Die.name?, h.attribute? (by decide)]

theorem isDeclaration (h : Reencodes P info info' d d') : d'.isDeclaration = d.isDeclaration := by
  rw [Die.isDeclaration, Die.isDeclaration, attributeIsTrue, attributeIsTrue,
    h.attribute? (by decide)]

theorem isAggregate (h : Reencodes P info info' d d') : d'.isAggregate = d.isAggregate := by
  rw [Die.isAggregate, Die.isAggregate, h.tag]

theorem isMember (h : Reencodes P info info' d d') : d'.isMember = d.isMember := by
  rw [Die.isMember, Die.isMember, attributeInt?, attributeInt?, attributeQuantity?,
    attributeQuantity?, h.tag, h.attribute? (by decide)]

theorem attributesOf (h : Reencodes P info info' d d') :
    Dwarf.attributesOf d' = Dwarf.attributesOf d := by
  rw [Dwarf.attributesOf, Dwarf.attributesOf, attributeInt?, attributeInt?, attributeQuantity?,
    attributeQuantity?, h.attribute? (by decide)]

theorem declaredName (h : Reencodes P info info' d d') :
    Dwarf.declaredName d' = Dwarf.declaredName d := by
  rw [Dwarf.declaredName, Dwarf.declaredName, h.tag, h.name?]

theorem countOf? (h : Reencodes P info info' d d') : Dwarf.countOf? d' = Dwarf.countOf? d := by
  unfold Dwarf.countOf? attributeInt? attributeQuantity?
  rw [h.attribute? (by decide), h.attribute? (by decide)]

theorem countsOf (h : Reencodes P info info' d d') : Dwarf.countsOf d' = Dwarf.countsOf d := by
  have hchildren := h.children
  unfold Dwarf.countsOf
  generalize d.children = cs, d'.children = cs' at hchildren
  induction hchildren with
  | nil => rfl
  | @cons c c' cs cs' hc _ ih =>
    rw [List.filter_cons, List.filter_cons, hc.tag]
    split
    · rw [List.map_cons, List.map_cons, hc.countOf?, ih]
    · exact ih

theorem arrayOf (h : Reencodes P info info' d d') (element : TypeNode) :
    Dwarf.arrayOf d' element = Dwarf.arrayOf d element := by
  rw [Dwarf.arrayOf, Dwarf.arrayOf, h.countsOf, h.offset]

theorem scalarOf (h : Reencodes P info info' d d') (htag : d.tag ≠ memberTag) :
    Dwarf.scalarOf name d' = Dwarf.scalarOf name d := by
  rw [Dwarf.scalarOf, Dwarf.scalarOf, attributeQuantity?, attributeQuantity?,
    h.attribute?_of_tag htag]

theorem pointerOf (h : Reencodes P info info' d d') (htag : d.tag ≠ memberTag) :
    Dwarf.pointerOf d' = Dwarf.pointerOf d := by
  rw [Dwarf.pointerOf, Dwarf.pointerOf, attributeQuantity?, attributeQuantity?,
    h.attribute?_of_tag htag, h.addressSize]

theorem score (h : Reencodes P info info' d d') (htag : d.tag ≠ memberTag) :
    Info.score d' = Info.score d := by
  rw [Info.score, Info.score, h.isDeclaration, h.attribute?_of_tag htag, h.hasChildren]

mutual
theorem preorder : (d : Die) → {d' : Die} → Reencodes P info info' d d' →
    List.Forall₂ (Reencodes P info info') d.preorder d'.preorder
  | ⟨_, _, _, _, _, _, children⟩, ⟨_, _, _, _, _, _, _⟩, h =>
    .cons h (preorderAll children h.children)

theorem preorderAll : (ds : List Die) → {ds' : List Die} →
    List.Forall₂ (Reencodes P info info') ds ds' →
    List.Forall₂ (Reencodes P info info') (Die.preorderAll ds) (Die.preorderAll ds')
  | [], _, .nil => .nil
  | d :: ds, _, .cons hd hds => List.rel_append (preorder d hd) (preorderAll ds hds)
end

end Die.Reencodes

/-- **A forest of entries is related as its roots are.** -/
theorem Info.reencodes_ofRoots {order : ByteOrder} {addressSize : Nat} {roots roots' : List Die}
    (h : List.Forall₂
      (Die.Reencodes P (.ofRoots order addressSize roots) (.ofRoots order addressSize roots'))
      roots roots') :
    Info.Reencodes P (.ofRoots order addressSize roots) (.ofRoots order addressSize roots') :=
  ⟨rfl, rfl, Die.Reencodes.preorderAll roots h⟩

/-! ## What is found -/

section Found

variable {R : Die → Die → Prop} {ds ds' : List Die}

theorem exists_of_rel {o o' : Option Die} (h : Option.Rel R o o') :
    o = none ∧ o' = none ∨ ∃ d d', o = some d ∧ o' = some d' ∧ R d d' := by
  cases h with
  | none => exact .inl ⟨rfl, rfl⟩
  | some hd => exact .inr ⟨_, _, rfl, rfl, hd⟩

/-- Searches by conditions that agree find related entries. -/
theorem rel_find? {p q : Die → Bool} (hds : List.Forall₂ R ds ds')
    (hpq : ∀ d d', R d d' → p d = q d') : Option.Rel R (ds.find? p) (ds'.find? q) := by
  induction hds with
  | nil => exact .none
  | @cons d d' ds ds' hd _ ih =>
    rw [List.find?_cons, List.find?_cons, hpq d d' hd]
    cases q d' with
    | true => exact .some hd
    | false => exact ih

theorem any_eq_of_forall₂ {p q : Die → Bool} (hds : List.Forall₂ R ds ds')
    (hpq : ∀ d d', R d d' → p d = q d') : ds.any p = ds'.any q := by
  induction hds with
  | nil => rfl
  | @cons d d' ds ds' hd _ ih => rw [List.any_cons, List.any_cons, hpq d d' hd, ih]

end Found

/-- Whether an entry is an aggregate is the same for related entries. -/
theorem rel_filter_isAggregate (hod : Option.Rel (Die.Reencodes P info info') od od') :
    Option.Rel (Die.Reencodes P info info') (od.filter Die.isAggregate)
      (od'.filter Die.isAggregate) := by
  cases hod with
  | none => exact .none
  | some hd =>
    rw [Option.filter_some, Option.filter_some, hd.isAggregate]
    split
    · exact .some hd
    · exact .none

namespace Info.Reencodes

variable (h : info.Reencodes P info')

include h

theorem length_dies : info'.dies.length = info.dies.length := h.dies.length_eq.symm

theorem depthBound : Dwarf.depthBound info' = Dwarf.depthBound info := by
  rw [Dwarf.depthBound, Dwarf.depthBound, h.length_dies]

theorem dieAt? (offset : Nat) :
    Option.Rel (Die.Reencodes P info info') (info.dieAt? offset) (info'.dieAt? offset) :=
  rel_find? h.dies fun d d' hd => by rw [hd.offset]

theorem typeOf? (hd : Die.Reencodes P info info' d d') :
    Option.Rel (Die.Reencodes P info info') (info.typeOf? d) (info'.typeOf? d') := by
  unfold Info.typeOf?
  rw [hd.type]
  cases d.type with
  | none => exact .none
  | some offset => exact h.dieAt? offset

/-- The entries of a name and a tag are no members, so their attributes are the same. -/
theorem best? (name : String) (tag : Label) :
    Option.Rel (Die.Reencodes P info info') (info.best? name tag) (info'.best? name tag) := by
  have hnamed (d d' : Die) (hd : Die.Reencodes P info info' d d') :
      isNamed name tag d = isNamed name tag d' := by
    rw [isNamed, isNamed, hd.tag, hd.name?]
  have hfiltered : List.Forall₂ (Die.Reencodes P info info')
      (info.dies.filter (isNamed name tag)) (info'.dies.filter (isNamed name tag)) :=
    List.rel_filter (fun d d' hd => Bool.eq_iff_iff.mp (hnamed d d' hd)) h.dies
  have hindexed : ∀ d ∈ info.dies.filter (isNamed name tag), d.tag ≠ memberTag := by
    intro d hd htag
    have hmember : isIndexedTag memberTag = false := by decide
    have hnamed := (List.mem_filter.mp hd).2
    rw [isNamed, htag, hmember] at hnamed
    cases hnamed
  have hboth := (List.forall₂_and_left _ _).mpr ⟨hindexed, hfiltered⟩
  -- A score looks at the size, which a bitfield may have in one encoding only.
  let R (d d' : Die) : Prop := d.tag ≠ memberTag ∧ Die.Reencodes P info info' d d'
  have hbetter (best best' : Option Die) (hbest : Option.Rel R best best') (d d' : Die)
      (hd : R d d') : Option.Rel R (better best d) (better best' d') := by
    cases hbest with
    | none => exact .some hd
    | some hb =>
      unfold better
      dsimp only
      rw [hd.2.score hd.1, hb.2.score hb.1]
      split
      · exact .some hd
      · exact .some hb
  have hfold : Option.Rel R (info.best? name tag) (info'.best? name tag) :=
    List.rel_foldl (R := R) (P := Option.Rel R) (fun _ _ hb _ _ hd => hbetter _ _ hb _ _ hd) .none
      hboth
  rcases exists_of_rel hfold with ⟨hb, hb'⟩ | ⟨b, b', hb, hb', hR⟩
  · rw [hb, hb']
    exact .none
  · rw [hb, hb']
    exact .some hR.2

/-- What stands for related entries is related. -/
theorem canonical (hd : Die.Reencodes P info info' d d') :
    Die.Reencodes P info info' (info.canonical d) (info'.canonical d') := by
  unfold Info.canonical
  rw [hd.name?]
  cases d.name? with
  | none => exact hd
  | some name =>
    dsimp only
    rw [hd.isAggregate, hd.tag]
    split
    · rcases exists_of_rel (h.best? name d.tag) with ⟨hb, hb'⟩ | ⟨b, b', hb, hb', hR⟩
      · rwa [hb, hb']
      · rwa [hb, hb']
    · exact hd

theorem stripAliases (steps : Nat) (hod : Option.Rel (Die.Reencodes P info info') od od') :
    Option.Rel (Die.Reencodes P info info') (info.stripAliases steps od)
      (info'.stripAliases steps od') := by
  induction steps generalizing od od' with
  | zero =>
    cases hod with
    | none => exact .none
    | some hd =>
      unfold Info.stripAliases
      rw [hd.tag]
      split
      · exact .none
      · exact .some hd
  | succ steps ih =>
    cases hod with
    | none => exact .none
    | some hd =>
      unfold Info.stripAliases
      rw [hd.tag]
      split
      · exact ih (h.typeOf? hd)
      · exact .some hd

/-- What is behind the aliases of related entries is related. -/
theorem behindAliases (hod : Option.Rel (Die.Reencodes P info info') od od') :
    Option.Rel (Die.Reencodes P info info') (info.behindAliases od) (info'.behindAliases od') := by
  unfold Info.behindAliases
  rw [h.length_dies]
  exact h.stripAliases _ hod

theorem hasName (name : String) : info'.hasName name = info.hasName name :=
  (any_eq_of_forall₂ h.dies fun d d' hd => by rw [hd.tag, hd.name?]).symm

theorem aggregateNamed? (name : String) (tag : Label) :
    Option.Rel (Die.Reencodes P info info') (info.aggregateNamed? name tag)
      (info'.aggregateNamed? name tag) := by
  unfold Info.aggregateNamed?
  rcases exists_of_rel (h.best? name tag) with ⟨hb, hb'⟩ | ⟨d, d', hb, hb', hd⟩
  · rw [hb, hb']
    exact .none
  · rw [hb, hb']
    dsimp only
    split
    · exact rel_filter_isAggregate (h.behindAliases (.some hd))
    · exact .some hd

/-- **What is found under a name is related**, or the failure is the same. -/
theorem findRoot (typeName : String) :
    (∃ f, info.findRoot typeName = .error f ∧ info'.findRoot typeName = .error f) ∨
      ∃ d d', info.findRoot typeName = .ok d ∧ info'.findRoot typeName = .ok d' ∧
        Die.Reencodes P info info' d d' := by
  have htags (name : String) (tags : List Label) :
      Option.Rel (Die.Reencodes P info info') (tags.findSome? (info.aggregateNamed? name))
        (tags.findSome? (info'.aggregateNamed? name)) := by
    induction tags with
    | nil => exact .none
    | cons tag tags ih =>
      rw [List.findSome?_cons, List.findSome?_cons]
      rcases exists_of_rel (h.aggregateNamed? name tag) with ⟨hb, hb'⟩ | ⟨d, d', hb, hb', hd⟩
      · rw [hb, hb']
        exact ih
      · rw [hb, hb']
        exact .some hd
  unfold Info.findRoot
  dsimp only
  rw [h.hasName]
  split
  · exact .inl ⟨_, rfl, rfl⟩
  · rcases exists_of_rel (htags (wantedTags typeName).1 (wantedTags typeName).2) with
      ⟨hb, hb'⟩ | ⟨d, d', hb, hb', hd⟩
    · rw [hb, hb']
      exact .inl ⟨_, rfl, rfl⟩
    · rw [hb, hb']
      exact .inr ⟨d, d', rfl, rfl, hd⟩

end Info.Reencodes

/-! ## What is built -/

section Building

variable {recur recur' : Option Die → BuildM TypeNode} (h : info.Reencodes P info')
  (hrecur : ∀ od od', Option.Rel (Die.Reencodes P info info') od od' → recur od = recur' od')

include h hrecur

theorem buildMember_eq (hc : Die.Reencodes P info info' c c') :
    buildMember info recur c = buildMember info' recur' c' := by
  unfold buildMember
  rw [hrecur _ _ (h.typeOf? hc), hc.bitSize, hc.name?, hc.attributesOf]

theorem buildMembers_eq (name : Option String) {cs cs' : List Die}
    (hcs : List.Forall₂ (Die.Reencodes P info info') cs cs') :
    buildMembers info recur name cs = buildMembers info' recur' name cs' := by
  induction hcs with
  | nil => rfl
  | cons hc _ ih =>
    unfold buildMembers
    rw [hc.tag, hc.isMember, buildMember_eq h hrecur hc, ih]

theorem buildAggregate_eq (hd : Die.Reencodes P info info' d d') :
    buildAggregate info recur d = buildAggregate info' recur' d' := by
  unfold buildAggregate
  rw [hd.isDeclaration, hd.declaredName, hd.offset, hd.name?, hd.tag, hd.attributesOf,
    buildMembers_eq h hrecur d.name? hd.children]

/-- **What is built for related entries is the same**, when it is for those that they refer to. -/
theorem buildEntry_eq (hd : Die.Reencodes P info info' d d') :
    buildEntry info recur d = buildEntry info' recur' d' := by
  unfold buildEntry
  rw [hd.tag, hd.name?, hd.isAggregate, hd.offset, hrecur _ _ (h.typeOf? hd)]
  by_cases halias : isAliasTag d.tag = true
  · rw [if_pos halias, if_pos halias]
  rw [if_neg halias, if_neg halias]
  by_cases hbase : d.tag = baseTag
  · have hmember : d.tag ≠ memberTag := by rw [hbase]; decide
    rw [if_pos hbase, if_pos hbase, hd.scalarOf hmember]
  rw [if_neg hbase, if_neg hbase]
  by_cases henumeration : d.tag = enumerationTag
  · have hmember : d.tag ≠ memberTag := by rw [henumeration]; decide
    rw [if_pos henumeration, if_pos henumeration, hd.scalarOf hmember]
  rw [if_neg henumeration, if_neg henumeration]
  by_cases hpointer : isPointerTag d.tag = true
  · have hall : ∀ tag ∈ pointerTags, tag ≠ memberTag := by decide
    rw [if_pos hpointer, if_pos hpointer,
      hd.pointerOf (hall d.tag (List.contains_iff_mem.mp hpointer))]
  rw [if_neg hpointer, if_neg hpointer]
  by_cases harray : d.tag = arrayTag
  · rw [if_pos harray, if_pos harray]
    simp only [hd.arrayOf]
  rw [if_neg harray, if_neg harray, buildAggregate_eq h hrecur hd]

end Building

/-- **The types that are built are the same**, failures included: none depends on a place. -/
theorem buildTo_eq (h : info.Reencodes P info') (depth : Nat)
    (hod : Option.Rel (Die.Reencodes P info info') od od') :
    buildTo info depth od = buildTo info' depth od' := by
  induction depth generalizing od od' with
  | zero =>
    cases hod with
    | none => rfl
    | some hd => rfl
  | succ depth ih =>
    cases hod with
    | none => rfl
    | some hd =>
      have hc := h.canonical hd
      unfold buildTo
      dsimp only
      rw [hc.offset, buildEntry_eq h (fun _ _ hod => ih hod) hc]

theorem build_eq (h : info.Reencodes P info')
    (hod : Option.Rel (Die.Reencodes P info info') od od') : build info od = build info' od' := by
  rw [build, build, h.depthBound]
  exact buildTo_eq h _ hod

end RecordLayout.Dwarf
