import RecordLayout.Proofs.Document.Cycle
import RecordLayout.Proofs.Text.Numeral
import RecordLayout.Proofs.TypeTree.Parts

/-!
# Where aggregates come from

Each specification of a document is written at a place of its own.  An aggregate takes the place of
its specification along as its origin, through all the names that lead to it.  And what a
specification stands for is the same each time that it is resolved.  So two aggregates of a document
that have one origin are equal: wherever they are found, they are one and the same object.

## Main definitions

* `WrittenBelow` says that the aggregates of a specification are written at places of their own;
* `ComesFrom` says that an aggregate is what a specification of a document stands for.

## Main results

* `Spec.writtenBelow_ofJson`: the places in a specification;
* `comesFrom_of_resolveAnew`: the aggregates in the type of an entry;
* `Document.toldApart_of_ofJson`: aggregates of a document with one origin are equal.
-/

namespace RecordLayout

/-! ## Places -/

/-- What follows a place on the way to another one. -/
theorem Place.next_eq {place target : Place} {s t : String} (hs : place ++ [s] <+: target)
    (ht : place ++ [t] <+: target) : s = t := by
  have hleads := List.prefix_of_prefix_length_le hs ht (by simp)
  have heq : place ++ [s] = place ++ [t] := hleads.eq_of_length (by simp)
  simpa using heq

/-- An item on the way to a place has one position in its list. -/
theorem Place.item_index_eq {place target : Place} {list : String} {i j : Nat}
    (hi : place.item list i <+: target) (hj : place.item list j <+: target) : i = j := by
  have hsegment : list ++ "[" ++ toString i ++ "]" = list ++ "[" ++ toString j ++ "]" :=
    Place.next_eq hi hj
  have hnumber : i.repr = j.repr := by
    simpa using hsegment
  have hread := Text.integer?_natRepr i
  rw [hnumber, Text.integer?_natRepr j] at hread
  exact (Int.ofNat.inj (Option.some.inj hread)).symm

/-- The aggregates of a specification are written at a place or below it, each at a place of its
own. -/
structure WrittenBelow (place : Place) (parts : List Spec) : Prop where
  below : ∀ a : AggregateSpec, .aggregate a ∈ parts → place <+: a.place
  apart : ∀ a b : AggregateSpec, .aggregate a ∈ parts → .aggregate b ∈ parts →
    a.place = b.place → a = b

/-- The same for the members of an aggregate, the first of which has position `index`. -/
structure WrittenFrom (place : Place) (index : Nat) (parts : List Spec) : Prop where
  below : ∀ a : AggregateSpec, .aggregate a ∈ parts →
    ∃ i, index ≤ i ∧ place.item "members" i <+: a.place
  apart : ∀ a b : AggregateSpec, .aggregate a ∈ parts → .aggregate b ∈ parts →
    a.place = b.place → a = b

section

variable {place : Place} {parts : List Spec} {s : Spec}

theorem WrittenBelow.mono {place' : Place} (h : WrittenBelow place' parts)
    (hleads : place <+: place') : WrittenBelow place parts where
  below a ha := hleads.trans (h.below a ha)
  apart := h.apart

/-- A specification that is no aggregate. -/
theorem WrittenBelow.cons (h : WrittenBelow place parts) (hs : ∀ a, s ≠ .aggregate a) :
    WrittenBelow place (s :: parts) where
  below a ha := h.below a ((List.mem_cons.mp ha).resolve_left (hs a).symm)
  apart a b ha hb := h.apart a b ((List.mem_cons.mp ha).resolve_left (hs a).symm)
    ((List.mem_cons.mp hb).resolve_left (hs b).symm)

/-- A specification with no other ones within it. -/
theorem writtenBelow_singleton (hs : ∀ a, s ≠ .aggregate a) : WrittenBelow place [s] :=
  .cons ⟨by simp, by simp⟩ hs

/-- An aggregate, whose members are written below it. -/
theorem WrittenFrom.aggregate {a : AggregateSpec} (h : WrittenFrom place 0 parts)
    (ha : a.place = place) : WrittenBelow place (.aggregate a :: parts) := by
  have hbelow (b : AggregateSpec) (hb : .aggregate b ∈ parts) :
      place <+: b.place ∧ b.place ≠ place := by
    obtain ⟨i, -, hleads⟩ := h.below b hb
    refine ⟨(List.prefix_append _ _).trans hleads, fun heq => ?_⟩
    have hlength := hleads.length_le
    rw [heq, Place.item, List.length_append, List.length_singleton] at hlength
    omega
  have hcases (b : AggregateSpec) (hb : .aggregate b ∈ Spec.aggregate a :: parts) :
      b = a ∨ .aggregate b ∈ parts :=
    (List.mem_cons.mp hb).imp_left Spec.aggregate.inj
  constructor
  · intro b hb
    rcases hcases b hb with rfl | hb
    · exact ⟨[], by rw [List.append_nil, ha]⟩
    · exact (hbelow b hb).1
  · intro b c hb hc heq
    rcases hcases b hb with hba | hb
    · rcases hcases c hc with hca | hc
      · rw [hba, hca]
      · exact absurd (heq.symm.trans (hba ▸ ha)) (hbelow c hc).2
    · rcases hcases c hc with hca | hc
      · exact absurd (heq.trans (hca ▸ ha)) (hbelow b hb).2
      · exact h.apart b c hb hc heq

/-- One more member in front of others. -/
theorem WrittenFrom.cons {index : Nat} {first rest : List Spec}
    (hfirst : WrittenBelow (place.item "members" index) first)
    (hrest : WrittenFrom place (index + 1) rest) : WrittenFrom place index (first ++ rest) := by
  have hapart (a b : AggregateSpec) (ha : .aggregate a ∈ first) (hb : .aggregate b ∈ rest) :
      a.place ≠ b.place := by
    intro heq
    obtain ⟨i, hi, hleads⟩ := hrest.below b hb
    have hindex := Place.item_index_eq (heq ▸ hfirst.below a ha) hleads
    omega
  constructor
  · intro a ha
    rcases List.mem_append.mp ha with ha | ha
    · exact ⟨index, Nat.le_refl index, hfirst.below a ha⟩
    · obtain ⟨i, hi, hleads⟩ := hrest.below a ha
      exact ⟨i, by omega, hleads⟩
  · intro a b ha hb heq
    rcases List.mem_append.mp ha with ha | ha
    · rcases List.mem_append.mp hb with hb | hb
      · exact hfirst.apart a b ha hb heq
      · exact absurd heq (hapart a b ha hb)
    · rcases List.mem_append.mp hb with hb | hb
      · exact absurd heq.symm (hapart b a hb ha)
      · exact hrest.apart a b ha hb heq

end

namespace Spec

variable {source : String}

theorem writtenBelow_shapedMember {place place' : Place} {type : Spec} (fields : Json.Fields)
    (h : WrittenBelow place type.parts) :
    WrittenBelow place (shapedMember source place' fields type).parts := by
  unfold shapedMember
  split
  · exact h.cons nofun
  · split
    · exact h
    · exact h
    · exact h.cons nofun
    · exact h.cons nofun

mutual
/-- **A specification is written at its place and below it**, each aggregate within it at a place of
its own. -/
theorem writtenBelow_ofJson (place : Place) (defaultName : Option String) :
    (v : Json) → WrittenBelow place (ofJson source place defaultName v).parts
  | .text spelling => by
    unfold ofJson
    exact writtenBelow_singleton nofun
  | .object fields => by
    unfold ofJson
    dsimp only
    split
    · exact writtenBelow_singleton nofun
    split
    · split
      · exact writtenBelow_singleton nofun
      split
      · rename_i items hitems
        have hsize : sizeOf items < sizeOf fields := by
          have h₁ := Json.Fields.sizeOf_lt_of_get? hitems
          have h₂ : sizeOf (Json.array items) = 1 + sizeOf items := by simp
          omega
        exact (writtenFrom_membersOfJson place 0 items).aggregate rfl
      · exact writtenBelow_singleton nofun
    split
    · split
      · exact writtenBelow_singleton nofun
      · rename_i target htarget
        have hsize := Json.Fields.sizeOf_lt_of_get? htarget
        exact ((writtenBelow_ofJson _ _ target).mono (List.prefix_append _ _)).cons nofun
    split
    · split
      · exact writtenBelow_singleton nofun
      · exact writtenBelow_singleton nofun
    split
    · split
      · split
        · exact writtenBelow_singleton nofun
        · exact writtenBelow_singleton nofun
        · rename_i base hne hbase
          have hsize := Json.Fields.sizeOf_lt_of_get? hbase
          exact ((writtenBelow_ofJson _ _ base).mono (List.prefix_append _ _)).cons nofun
      · exact writtenBelow_singleton nofun
    · split
      · exact writtenBelow_singleton nofun
      · rename_i element helement
        have hsize := Json.Fields.sizeOf_lt_of_get? helement
        exact ((writtenBelow_ofJson _ _ element).mono (List.prefix_append _ _)).cons nofun
  | .null | .bool _ | .int _ | .float _ | .array _ => by
    unfold ofJson
    exact writtenBelow_singleton nofun
termination_by v => sizeOf v

theorem writtenFrom_membersOfJson (place : Place) (index : Nat) : (items : List Json) →
    WrittenFrom place index (partsOfMembers (membersOfJson source place index items))
  | [] => by
    unfold membersOfJson
    exact ⟨by simp [partsOfMembers], by simp [partsOfMembers]⟩
  | item :: items => by
    unfold membersOfJson
    exact .cons (writtenBelow_memberOfJson _ item) (writtenFrom_membersOfJson place (index + 1) items)
termination_by items => sizeOf items

theorem writtenBelow_memberOfJson (place : Place) :
    (v : Json) → WrittenBelow place (memberOfJson source place v).parts
  | .object fields => by
    unfold memberOfJson
    dsimp only
    split
    · exact ⟨by simp [MemberSpec.parts], by simp [MemberSpec.parts]⟩
    split
    · exact ⟨by simp [MemberSpec.parts], by simp [MemberSpec.parts]⟩
    · rename_i type htype
      have hsize := Json.Fields.sizeOf_lt_of_get? htype
      have hinner := (writtenBelow_ofJson (place ++ ["type"]) none type).mono
        (List.prefix_append place ["type"])
      split
      · exact writtenBelow_shapedMember fields hinner
      · cases type with
        | null => exact ⟨by simp [MemberSpec.parts], by simp [MemberSpec.parts]⟩
        | _ => exact hinner.cons nofun
      · exact ⟨by simp [MemberSpec.parts], by simp [MemberSpec.parts]⟩
  | .null | .bool _ | .int _ | .float _ | .array _ | .text _ => by
    unfold memberOfJson
    exact ⟨by simp [MemberSpec.parts], by simp [MemberSpec.parts]⟩
termination_by v => sizeOf v
end

end Spec

/-! ## What is resolved -/

section Resolve

variable {source : String} {lookup lookup' : Place → String → Except Failure TypeNode}

/-- Members are the same when the specifications of their types stand for the same. -/
theorem resolveMembers_mono {xs : List MemberSpec} {ys : List Member}
    (h : ∀ type name attributes, .member type name attributes ∈ xs → ∀ t,
      Spec.resolve source lookup type = .ok t → type.resolve source lookup' = .ok t)
    (hys : resolveMembers source lookup xs = .ok ys) :
    resolveMembers source lookup' xs = .ok ys := by
  induction xs generalizing ys with
  | nil => exact hys
  | cons x xs ih =>
    obtain ⟨y, hy, hys⟩ := Except.bind_eq_ok.mp hys
    obtain ⟨ys, hrest, hys⟩ := Except.bind_eq_ok.mp hys
    have hfirst : x.resolve source lookup' = .ok y := by
      cases x with
      | member type name attributes =>
        obtain ⟨t, ht, hy⟩ := Except.bind_eq_ok.mp hy
        exact Except.bind_eq_ok.mpr ⟨t, h type name attributes List.mem_cons_self t ht, hy⟩
      | fault f => exact hy
    have hrest := ih (fun type name attributes hmem =>
      h type name attributes (List.mem_cons_of_mem x hmem)) hrest
    exact Except.bind_eq_ok.mpr ⟨y, hfirst, Except.bind_eq_ok.mpr ⟨ys, hrest, hys⟩⟩

/-- A specification stands for the same type when the names in it still do. -/
theorem Spec.resolve_mono (s : Spec) {t : TypeNode}
    (h : ∀ place spelling t, lookup place spelling = .ok t → lookup' place spelling = .ok t)
    (ht : s.resolve source lookup = .ok t) : s.resolve source lookup' = .ok t := by
  induction s using Spec.induction generalizing t with
  | named place spelling => exact h place spelling t ht
  | primitive p => exact ht
  | aggregate a ih =>
    obtain ⟨kind, members, name, pack, attributes, place⟩ := a
    obtain ⟨b, hb, ht⟩ := Except.bind_eq_ok.mp ht
    obtain ⟨xs, hxs, hb⟩ := Except.bind_eq_ok.mp hb
    have hmembers := resolveMembers_mono (fun type name attributes hmem t ht =>
      ih type name attributes hmem ht) hxs
    exact Except.bind_eq_ok.mpr ⟨b, Except.bind_eq_ok.mpr ⟨xs, hmembers, hb⟩, ht⟩
  | aliased target ih => exact ih ht
  | shaped element shape ih =>
    obtain ⟨e, he, ht⟩ := Except.bind_eq_ok.mp ht
    exact Except.bind_eq_ok.mpr ⟨e, ih he, ht⟩
  | bitfield place base width ih =>
    obtain ⟨b, hb, ht⟩ := Except.bind_eq_ok.mp ht
    exact Except.bind_eq_ok.mpr ⟨b, ih hb, ht⟩
  | fault f => exact ht

theorem AggregateSpec.resolve_mono (s : AggregateSpec) {b : Aggregate}
    (h : ∀ place spelling t, lookup place spelling = .ok t → lookup' place spelling = .ok t)
    (hb : s.resolve source lookup = .ok b) : s.resolve source lookup' = .ok b := by
  have hspec : (Spec.aggregate s).resolve source lookup = .ok (.aggregate b) :=
    Except.bind_eq_ok.mpr ⟨b, hb, rfl⟩
  obtain ⟨b', hb', hsame⟩ := Except.bind_eq_ok.mp (Spec.resolve_mono _ h hspec)
  obtain rfl := TypeNode.aggregate.inj (Except.pure_eq_ok.mp hsame)
  exact hb'

/-- An aggregate takes the place of its specification along. -/
theorem AggregateSpec.origin_of_resolve {a : AggregateSpec} {b : Aggregate}
    (h : a.resolve source lookup = .ok b) : b.origin = .written a.place := by
  obtain ⟨kind, members, name, pack, attributes, place⟩ := a
  obtain ⟨xs, -, h⟩ := Except.bind_eq_ok.mp h
  obtain ⟨attributes, -, h⟩ := Except.bind_eq_ok.mp h
  rw [← Except.pure_eq_ok.mp h]

section Inside

variable {K : Aggregate → Prop}

/-- What `Spec.inside_of_resolve` asks of the parts of a specification and of the types of the names
in it. -/
structure Known (source : String) (lookup : Place → String → Except Failure TypeNode)
    (K : Aggregate → Prop) (parts : List Spec) : Prop where
  names : ∀ place spelling t, lookup place spelling = .ok t →
    ∀ a : Aggregate, (TypeNode.aggregate a).IsPartOf t → K a
  aggregates : ∀ s : AggregateSpec, .aggregate s ∈ parts →
    ∀ a, s.resolve source lookup = .ok a → K a

theorem Known.mono {parts parts' : List Spec} (h : Known source lookup K parts)
    (hsub : parts' ⊆ parts) : Known source lookup K parts' where
  names := h.names
  aggregates s hs := h.aggregates s (hsub hs)

theorem Known.tail {s : Spec} {parts : List Spec} (h : Known source lookup K (s :: parts)) :
    Known source lookup K parts := h.mono (List.subset_cons_self s parts)

mutual
/-- The aggregates that a specification stands for are written within it, or found by a name in
it. -/
theorem Spec.inside_of_resolve : (s : Spec) → Known source lookup K s.parts → {t : TypeNode} →
    s.resolve source lookup = .ok t →
    ∀ a : Aggregate, (TypeNode.aggregate a).IsPartOf t → K a
  | .named place spelling, hs, t, ht => hs.names place spelling t ht
  | .primitive _, _, _, ht => by
    obtain rfl := Except.pure_eq_ok.mp ht
    exact nofun
  | .aggregate s, hs, _, ht => by
    obtain ⟨b, hb, ht⟩ := Except.bind_eq_ok.mp ht
    obtain rfl := Except.pure_eq_ok.mp ht
    intro a ha
    cases ha with
    | self => exact hs.aggregates s List.mem_cons_self b hb
    | member mem inside => exact s.inside_of_resolve hs.tail hb _ mem a inside
  | .alias target, hs, _, ht => target.inside_of_resolve hs.tail ht
  | .shaped element shape, hs, _, ht => by
    obtain ⟨e, he, ht⟩ := Except.bind_eq_ok.mp ht
    obtain ⟨shape, -, ht⟩ := Except.bind_eq_ok.mp ht
    have helement := element.inside_of_resolve hs.tail he
    intro a ha
    cases shape with
    | flexible =>
      obtain rfl := Except.pure_eq_ok.mp ht
      cases ha with
      | flexibleArray inside => exact helement a inside
    | dimensions dims =>
      obtain rfl := Except.pure_eq_ok.mp ht
      cases ha with
      | array inside => exact helement a inside
  | .bitfield _ base _, _, _, ht => by
    obtain ⟨b, -, ht⟩ := Except.bind_eq_ok.mp ht
    cases b with
    | primitive p =>
      obtain rfl := Except.pure_eq_ok.mp ht
      exact nofun
    | _ => exact absurd ht nofun
  | .fault _, _, _, ht => absurd ht nofun

theorem AggregateSpec.inside_of_resolve : (s : AggregateSpec) → Known source lookup K s.parts →
    {b : Aggregate} → s.resolve source lookup = .ok b →
    ∀ x ∈ b.members, ∀ a : Aggregate, (TypeNode.aggregate a).IsPartOf x.type → K a
  | ⟨_, members, _, _, _, _⟩, hs, _, hb => by
    obtain ⟨xs, hxs, hb⟩ := Except.bind_eq_ok.mp hb
    obtain ⟨attributes, -, hb⟩ := Except.bind_eq_ok.mp hb
    obtain rfl := Except.pure_eq_ok.mp hb
    exact inside_of_resolveMembers members hs hxs

theorem inside_of_resolveMembers : (xs : List MemberSpec) →
    Known source lookup K (partsOfMembers xs) → {ys : List Member} →
    resolveMembers source lookup xs = .ok ys →
    ∀ y ∈ ys, ∀ a : Aggregate, (TypeNode.aggregate a).IsPartOf y.type → K a
  | [], _, _, hys => by
    obtain rfl := Except.pure_eq_ok.mp hys
    exact nofun
  | x :: xs, hs, _, hys => by
    obtain ⟨y, hy, hys⟩ := Except.bind_eq_ok.mp hys
    obtain ⟨ys, hrest, hys⟩ := Except.bind_eq_ok.mp hys
    obtain rfl := Except.pure_eq_ok.mp hys
    refine List.forall_mem_cons.mpr ⟨?_, ?_⟩
    · exact x.inside_of_resolve (hs.mono (List.subset_append_left _ _)) hy
    · exact inside_of_resolveMembers xs (hs.mono (List.subset_append_right _ _)) hrest

theorem MemberSpec.inside_of_resolve : (x : MemberSpec) → Known source lookup K x.parts →
    {y : Member} → x.resolve source lookup = .ok y →
    ∀ a : Aggregate, (TypeNode.aggregate a).IsPartOf y.type → K a
  | .member type _ _, hs, _, hy => by
    obtain ⟨t, ht, hy⟩ := Except.bind_eq_ok.mp hy
    obtain ⟨attributes, -, hy⟩ := Except.bind_eq_ok.mp hy
    obtain rfl := Except.pure_eq_ok.mp hy
    exact type.inside_of_resolve hs ht
  | .fault _, _, _, hy => absurd hy nofun
end

end Inside

end Resolve

/-! ## The entries of a document -/

section Entries

variable {source : String} {entries : List Entry}

theorem lookUp_mono {enter enter' : String → Except Failure TypeNode}
    (h : ∀ name t, enter name = .ok t → enter' name = .ok t) (place : Place) (spelling : String)
    (t : TypeNode) (ht : lookUp source entries enter place spelling = .ok t) :
    lookUp source entries enter' place spelling = .ok t := by
  unfold lookUp at ht ⊢
  cases hr : referenceOf? entries (TypeName.normalize spelling) with
  | none =>
    rw [hr] at ht
    exact ht
  | some r =>
    rw [hr] at ht
    cases r with
    | primitive p => exact ht
    | incomplete text => exact ht
    | entry n => exact h n t ht

/-- What an entry stands for does not depend on the entries that are being resolved. -/
theorem resolveAnew_mono {active active' : List String} (hsub : active' ⊆ active) {name : String}
    {t : TypeNode} (h : resolveAnew source entries active name = .ok t) :
    resolveAnew source entries active' name = .ok t := by
  -- Induction on the number of entries that are pending.
  induction hk : (pending entries active).length using Nat.strongRecOn
    generalizing active active' name t with
  | ind k ih =>
    subst hk
    by_cases hn : name ∈ active
    · rw [resolveAnew_of_mem hn] at h
      exact absurd h nofun
    have hn' : name ∉ active' := fun hmem => hn (hsub hmem)
    cases he : entries.find? fun e => e.name == name with
    | none =>
      rw [resolveAnew_of_find?_eq_none hn he] at h
      rw [resolveAnew_of_find?_eq_none hn' he]
      exact h
    | some e =>
      rw [resolveAnew_of_find?_eq_some hn he] at h
      rw [resolveAnew_of_find?_eq_some hn' he]
      refine e.spec.resolve_mono (lookUp_mono fun n u hu => ?_) h
      exact ih _ (length_pending_cons_lt hn he) (List.cons_subset_cons name hsub) hu rfl

/-- An aggregate is what the specification of an aggregate in a document stands for. -/
def ComesFrom (source : String) (entries : List Entry) (a : Aggregate) : Prop :=
  ∃ e, entries.find? (fun e' => e'.name == e.name) = some e ∧
    ∃ s : AggregateSpec, .aggregate s ∈ e.spec.parts ∧
      s.resolve source (lookUp source entries (resolveAnew source entries [])) = .ok a

/-- **The aggregates in the type of an entry** are what specifications of the document stand
for. -/
theorem comesFrom_of_resolveAnew {active : List String} {name : String} {t : TypeNode}
    (h : resolveAnew source entries active name = .ok t) :
    ∀ a : Aggregate, (TypeNode.aggregate a).IsPartOf t → ComesFrom source entries a := by
  -- Induction on the number of entries that are pending.
  induction hk : (pending entries active).length using Nat.strongRecOn
    generalizing active name t with
  | ind k ih =>
    subst hk
    by_cases hn : name ∈ active
    · rw [resolveAnew_of_mem hn] at h
      exact absurd h nofun
    cases he : entries.find? fun e => e.name == name with
    | none =>
      rw [resolveAnew_of_find?_eq_none hn he] at h
      obtain rfl := Except.ok.inj h
      exact nofun
    | some e =>
      have hname : e.name = name := by simpa using List.find?_some he
      rw [resolveAnew_of_find?_eq_some hn he] at h
      refine e.spec.inside_of_resolve ⟨fun place spelling u hu => ?_, fun s hs a ha => ?_⟩ h
      · unfold lookUp at hu
        cases hr : referenceOf? entries (TypeName.normalize spelling) with
        | none =>
          rw [hr] at hu
          exact absurd hu nofun
        | some r =>
          rw [hr] at hu
          cases r with
          | primitive p =>
            obtain rfl := Except.pure_eq_ok.mp hu
            exact nofun
          | incomplete text =>
            obtain rfl := Except.pure_eq_ok.mp hu
            exact nofun
          | entry n => exact ih _ (length_pending_cons_lt hn he) hu rfl
      · refine ⟨e, hname ▸ he, s, hs, ?_⟩
        exact s.resolve_mono (lookUp_mono fun n u hu => resolveAnew_mono (List.nil_subset _) hu) ha

/-- Aggregates with one origin are equal if every entry is written at a place of its own. -/
theorem ComesFrom.eq_of_origin_eq
    (hplaces : ∀ e ∈ entries, WrittenBelow ["types", e.name] e.spec.parts) {a b : Aggregate}
    (ha : ComesFrom source entries a) (hb : ComesFrom source entries b)
    (h : a.origin = b.origin) : a = b := by
  obtain ⟨e, he, s, hs, ha⟩ := ha
  obtain ⟨e', he', s', hs', hb⟩ := hb
  rw [s.origin_of_resolve ha, s'.origin_of_resolve hb] at h
  have hplace : s.place = s'.place := Origin.written.inj h
  have hwritten := hplaces e (List.mem_of_find?_eq_some he)
  have hwritten' := hplaces e' (List.mem_of_find?_eq_some he')
  have hname : e.name = e'.name := by
    have hbelow : ["types"] ++ [e.name] <+: s.place := hwritten.below s hs
    have hbelow' : ["types"] ++ [e'.name] <+: s.place := hplace ▸ hwritten'.below s' hs'
    exact Place.next_eq hbelow hbelow'
  rw [hname, he'] at he
  obtain rfl := Option.some.inj he
  obtain rfl := hwritten.apart s s' hs hs' hplace
  exact Except.ok.inj (ha.symm.trans hb)

end Entries

namespace Document

/-- The types of a document that was read are those of its entries. -/
theorem resolveAll_of_ofJson {source : String} {v : Json} {d : Document}
    (h : ofJson source v = .ok d) :
    ∃ types : Json.Fields, resolveAll source (entriesOf source types) = .ok d.types := by
  cases v with
  | object fields =>
    unfold ofJson at h
    dsimp only at h
    split at h
    · split at h
      · rename_i types _
        obtain ⟨profile, -, h⟩ := Except.bind_eq_ok.mp h
        obtain ⟨resolved, hresolved, h⟩ := Except.bind_eq_ok.mp h
        obtain rfl := Except.pure_eq_ok.mp h
        exact ⟨types, hresolved⟩
      · exact absurd h nofun
    · exact absurd h nofun
  | _ => exact absurd h nofun

/-- **Origins tell the aggregates of a document apart**, wherever they are found in its types. -/
theorem toldApart_of_ofJson {source : String} {v : Json} {d : Document}
    (h : ofJson source v = .ok d) : ToldApart fun t => ∃ root ∈ d.types, t.IsPartOf root.2 := by
  obtain ⟨types, htypes⟩ := resolveAll_of_ofJson h
  have hplaces : ∀ e ∈ entriesOf source types, WrittenBelow ["types", e.name] e.spec.parts := by
    intro e he
    obtain ⟨⟨name, v⟩, -, rfl⟩ := List.mem_map.mp he
    exact Spec.writtenBelow_ofJson ["types", name] (some name) v
  rw [resolveAll_eq_mapM] at htypes
  have hfrom : ∀ root ∈ d.types, ∀ a : Aggregate, (TypeNode.aggregate a).IsPartOf root.2 →
      ComesFrom source (entriesOf source types) a := by
    intro root hroot
    obtain ⟨e, -, he⟩ := Except.exists_of_mapM_eq_ok htypes root hroot
    obtain ⟨t, ht, rfl⟩ := Except.map_eq_ok.mp he
    exact comesFrom_of_resolveAnew ht
  rintro a b ⟨root, hroot, ha⟩ ⟨root', hroot', hb⟩ heq
  exact (hfrom root hroot a ha).eq_of_origin_eq hplaces (hfrom root' hroot' b hb) heq

end Document

end RecordLayout
