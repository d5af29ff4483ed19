import RecordLayout.Proofs.Document.Resolution

/-!
# How reading a document fails

Whatever stands in a document, reading it fails as a document, a profile or a layout that is
refused.  There is one exception: the kind of a type specification and the base of a profile are
used as look-up keys before it is known that they are texts, and a list or an object is no key.

## Main definitions

* `Failure.IsDocumented` has the failures that are announced;
* `Json.HasCompositeKind` and `Document.HasCompositeKey` find the composite values that stand where
  a look-up key is needed;
* `RefusesFor` bounds the failures of a computation.

## Main results

* `Profile.refusesFor_ofJson`, `Spec.refusesFor_resolve_ofJson`: profiles and specifications;
* `refusesFor_resolveAnew`: entries;
* `Document.ofJson_outcome`: documents.
-/

namespace RecordLayout

/-- The failures that are announced: a document, a profile or a layout is refused. -/
inductive Failure.IsDocumented : Failure → Prop
  | document (e : DocumentError) : IsDocumented (.document e)
  | profile (e : ProfileError) : IsDocumented (.profile e)
  | layout (e : LayoutError) : IsDocumented (.layout e)

/-- A composite value stands as the kind of a type specification, either of the value itself or of
one that the value contains where a type is expected. -/
inductive Json.HasCompositeKind : Json → Prop
  | here {fields : Json.Fields} {kind : Json} (h : fields.get? "kind" = some kind)
      (composite : kind.isComposite = true) : HasCompositeKind (.object fields)
  | inside {fields : Json.Fields} {key : String} {v : Json} (hkey : key ∈ ["type", "base", "element"])
      (h : fields.get? key = some v) (inner : HasCompositeKind v) : HasCompositeKind (.object fields)
  | member {fields member : Json.Fields} {items : List Json} {type : Json}
      (h : fields.get? "members" = some (.array items)) (hmember : .object member ∈ items)
      (htype : member.get? "type" = some type) (inner : HasCompositeKind type) :
      HasCompositeKind (.object fields)

/-- A composite value stands in a document where a look-up key is needed: as the kind of a type
specification, or as the base of the profile. -/
inductive Document.HasCompositeKey : Json → Prop
  | kind {fields types : Json.Fields} {name : String} {v : Json}
      (htypes : fields.get? "types" = some (.object types)) (hentry : (name, v) ∈ types)
      (inner : v.HasCompositeKind) : HasCompositeKey (.object fields)
  | base {fields profile : Json.Fields} {v : Json}
      (hprofile : fields.get? "profile" = some (.object profile))
      (h : profile.get? "base" = some v) (composite : v.isComposite = true) :
      HasCompositeKey (.object fields)

/-! ## Bounds on failures -/

/-- A computation whose failures are documented, but for a composite look-up key, which must have
the cause `C`. -/
def RefusesFor (C : Prop) {α : Type} (x : Except Failure α) : Prop :=
  ∀ f, x = .error f → f.IsDocumented ∨ f = .compositeKey ∧ C

namespace RefusesFor

variable {C D : Prop} {α β : Type} {x : Except Failure α}

theorem ok (a : α) : RefusesFor C (.ok a) := nofun

theorem pure (a : α) : RefusesFor C (Pure.pure a : Except Failure α) := nofun

theorem error {f : Failure} (h : f.IsDocumented) : RefusesFor C (.error f : Except Failure α) := by
  rintro _ ⟨⟩
  exact .inl h

/-- A fault of a specification is a documented failure. -/
theorem problem {source : String} {place : Place} {p : DocumentError.Problem} :
    RefusesFor C (.error (Spec.problem source place p) : Except Failure α) := error (.document _)

/-- What follows a failure is not reached. -/
theorem error_bind {f : Failure} (h : f.IsDocumented) {k : β → Except Failure α} :
    RefusesFor C ((.error f : Except Failure β) >>= k) := error h

theorem problem_bind {source : String} {place : Place} {p : DocumentError.Problem}
    {k : β → Except Failure α} :
    RefusesFor C ((.error (Spec.problem source place p) : Except Failure β) >>= k) := problem

theorem compositeKey (h : C) : RefusesFor C (.error .compositeKey : Except Failure α) := by
  rintro _ ⟨⟩
  exact .inr ⟨rfl, h⟩

theorem mono (h : RefusesFor C x) (hCD : C → D) : RefusesFor D x :=
  fun f hf => (h f hf).imp_right fun ⟨hkey, hc⟩ => ⟨hkey, hCD hc⟩

/-- A failure that was handed on. -/
theorem failed {f : Failure} (hx : RefusesFor C x) (h : x = .error f) :
    RefusesFor C (.error f : Except Failure β) := by
  rintro _ ⟨⟩
  exact hx f h

theorem bind {k : α → Except Failure β} (hx : RefusesFor C x) (hk : ∀ a, RefusesFor C (k a)) :
    RefusesFor C (x >>= k) := by
  intro f hf
  rcases Except.bind_eq_error.mp hf with hf | ⟨a, -, hf⟩
  · exact hx f hf
  · exact hk a f hf

theorem map {g : α → β} (hx : RefusesFor C x) : RefusesFor C (x.map g) :=
  fun f hf => hx f (Except.map_eq_error.mp hf)

theorem foldlM {f : β → α → Except Failure β} {xs : List α} (hf : ∀ b a, RefusesFor C (f b a))
    (b : β) : RefusesFor C (xs.foldlM f b) := by
  intro e he
  obtain ⟨_, x, _, c, _, _, hx⟩ := Except.foldlM_eq_error he
  exact hf c x e hx

theorem mapM {f : α → Except Failure β} {xs : List α} (hf : ∀ a ∈ xs, RefusesFor C (f a)) :
    RefusesFor C (xs.mapM f) := by
  intro e he
  obtain ⟨x, hx, hfx⟩ := Except.exists_of_mapM_eq_error he
  exact hf x hx e hfx

end RefusesFor

variable {C : Prop} {source : String} {place : Place}

/-! ## Profiles -/

namespace Profile

theorem refusesFor_refuse {α : Type} (e : ProfileError) :
    RefusesFor C (refuse e : Except Failure α) := .error (.profile e)

theorem refusesFor_named (name : String) : RefusesFor C (named name) := by
  unfold named
  split
  · exact .ok _
  · exact .error (.profile _)

theorem refusesFor_baseOf (fields : Json.Fields) :
    RefusesFor (∃ v, fields.get? "base" = some v ∧ v.isComposite = true) (baseOf fields) := by
  unfold baseOf
  split
  · exact .ok _
  · rename_i v hv
    split
    · rename_i hcomposite
      exact .compositeKey ⟨v, hv, hcomposite⟩
    · exact refusesFor_named _

theorem refusesFor_option {α : Type} {fields : Json.Fields} {key kind : String}
    {view : Json → Option α} : RefusesFor C (option fields key kind view) := by
  unfold option
  split
  · exact .ok _
  · split
    · exact .ok _
    · exact refusesFor_refuse _

theorem refusesFor_putSize (table : SortedTable String Int) (entry : String × Json) :
    RefusesFor C (putSize table entry) := by
  unfold putSize
  split
  · split
    · exact refusesFor_refuse _
    · exact .ok _
  · exact refusesFor_refuse _

theorem refusesFor_putAlignment (table : SortedTable Int Int) (entry : String × Json) :
    RefusesFor C (putAlignment table entry) := by
  unfold putAlignment
  split
  · exact refusesFor_refuse _
  · split
    · exact .ok _
    · exact refusesFor_refuse _

theorem refusesFor_putEntries {α : Type} {fields : Json.Fields} {key : String}
    {otherwise : ProfileError} {put : α → String × Json → Except Failure α} {table : α}
    (hput : ∀ table entry, RefusesFor C (put table entry)) :
    RefusesFor C (putEntries fields key otherwise put table) := by
  unfold putEntries
  split
  · exact .ok _
  · exact .foldlM hput table
  · exact refusesFor_refuse _

theorem refusesFor_check (d : Draft) : RefusesFor C d.check := by
  simp only [Draft.check]
  split
  · exact refusesFor_refuse _
  split
  · exact refusesFor_refuse _
  split
  · exact refusesFor_refuse _
  split
  · exact refusesFor_refuse _
  · exact .ok _

theorem refusesFor_draftOf (defaultName : String) (fields : Json.Fields) :
    RefusesFor (∃ v, fields.get? "base" = some v ∧ v.isComposite = true)
      (draftOf defaultName fields) := by
  unfold draftOf
  refine (refusesFor_baseOf fields).bind fun base => ?_
  refine refusesFor_option.bind fun width => refusesFor_option.bind fun reuse => ?_
  refine refusesFor_option.bind fun fill => refusesFor_option.bind fun packing => ?_
  refine refusesFor_option.bind fun overrides => refusesFor_option.bind fun conflict => ?_
  refine (refusesFor_putEntries refusesFor_putSize).bind fun sizes => ?_
  exact (refusesFor_putEntries refusesFor_putAlignment).bind fun table => .pure _

/-- **A profile is refused as a profile**, unless its base is composite. -/
theorem refusesFor_ofJson (defaultName : String) (fields : Json.Fields) :
    RefusesFor (∃ v, fields.get? "base" = some v ∧ v.isComposite = true)
      (ofJson defaultName (.object fields)) := by
  simp only [ofJson]
  split
  · exact (refusesFor_draftOf defaultName fields).bind refusesFor_check
  · exact refusesFor_refuse _

end Profile

/-! ## Specifications -/

namespace Spec

theorem refusesFor_attributesOf (fields : Json.Fields) :
    RefusesFor C (attributesOf source place fields) := by
  simp only [attributesOf]
  split
  case h_3 => exact .problem_bind
  all_goals
    simp only [pure_bind]
    split
    · exact .pure _
    · exact .pure _
    · exact .problem

theorem refusesFor_checkDimensions (dims : List Json) :
    RefusesFor C (checkDimensions source place dims) := by
  induction dims with
  | nil => exact .ok _
  | cons d dims ih =>
    unfold checkDimensions
    split
    · exact ih
    · exact ih
    · exact .problem

theorem refusesFor_dimensionsOf (v : Option Json) : RefusesFor C (dimensionsOf source place v) := by
  unfold dimensionsOf
  split
  · exact (refusesFor_checkDimensions _).map
  · exact .problem

theorem refusesFor_primitiveNumber {fields : Json.Fields} {key : String} :
    RefusesFor C (primitiveNumber source place fields key) := by
  unfold primitiveNumber
  split
  · exact .ok _
  · exact .ok _
  · exact .problem

theorem refusesFor_primitiveOf (defaultName : Option String) (fields : Json.Fields) :
    RefusesFor C (primitiveOf source place defaultName fields) := by
  simp only [primitiveOf]
  split
  · exact .problem
  · refine refusesFor_primitiveNumber.bind fun size => ?_
    exact refusesFor_primitiveNumber.bind fun alignment => .pure _

theorem refusesFor_aggregateName (defaultName : Option String) (fields : Json.Fields) :
    RefusesFor C (aggregateName source place defaultName fields) := by
  unfold aggregateName
  split
  · exact .ok _
  · exact .ok _
  · exact .ok _
  · exact .problem

theorem refusesFor_packOf (fields : Json.Fields) : RefusesFor C (packOf source place fields) := by
  unfold packOf
  split
  · exact .ok _
  · exact .ok _
  · exact .problem

theorem refusesFor_aggregateHead (defaultName : Option String) (fields : Json.Fields) :
    RefusesFor C (aggregateHead source place defaultName fields) := by
  simp only [aggregateHead]
  split
  · refine (refusesFor_aggregateName defaultName fields).bind fun name => ?_
    exact (refusesFor_packOf fields).bind fun pack => .pure _
  · exact .problem_bind

theorem refusesFor_memberHead (fields : Json.Fields) :
    RefusesFor C (memberHead source place fields) := by
  simp only [memberHead]
  repeat' split
  all_goals first | exact .pure _ | exact .problem

theorem refusesFor_kindOf (fields : Json.Fields) :
    RefusesFor (Json.HasCompositeKind (.object fields)) (kindOf source place fields) := by
  simp only [kindOf]
  split
  · rename_i hcomposite
    cases hkind : fields.get? "kind" with
    | none => simp [hkind, Json.isComposite] at hcomposite
    | some kind => 
      rw [hkind] at hcomposite
      exact .compositeKey (.here hkind hcomposite)
  · split
    · split
      · exact .ok _
      · exact .problem
    · exact .problem

theorem refusesFor_ofExcept {α : Type} {x : Except Failure α} (h : RefusesFor C x) :
    RefusesFor C (MonadExcept.ofExcept x : Except Failure α) := by
  cases x with
  | ok a => exact .ok a
  | error f => exact h

section Resolve

variable {lookup : Place → String → Except Failure TypeNode}

/-- An array is refused when its element is refused, or its shape. -/
theorem refusesFor_resolve_shaped {element : Spec} {shape : Except Failure Shape}
    (helement : RefusesFor C (element.resolve source lookup)) (hshape : RefusesFor C shape) :
    RefusesFor C ((Spec.shaped element shape).resolve source lookup) := by
  unfold resolve
  refine helement.bind fun e => (refusesFor_ofExcept hshape).bind fun s => ?_
  cases s with
  | flexible => exact .pure _
  | dimensions dims => exact .pure _

theorem refusesFor_resolve_bitfield {base : Spec} {width : Int}
    (hbase : RefusesFor C (base.resolve source lookup)) :
    RefusesFor C ((Spec.bitfield place base width).resolve source lookup) := by
  unfold resolve
  refine hbase.bind fun b => ?_
  split
  · exact .pure _
  · exact .problem

theorem refusesFor_resolve_fault {f : Failure} (h : RefusesFor C (.error f : Except Failure Unit)) :
    RefusesFor C ((Spec.fault f).resolve source lookup) := by
  unfold resolve
  exact h.failed rfl

/-- An aggregate is refused when one of its members is refused, or its attributes. -/
theorem refusesFor_resolve_aggregate {a : AggregateSpec}
    (hmembers : RefusesFor C (resolveMembers source lookup a.members))
    (hattributes : RefusesFor C a.attributes) :
    RefusesFor C ((Spec.aggregate a).resolve source lookup) := by
  obtain ⟨kind, members, name, pack, attributes, place⟩ := a
  unfold resolve AggregateSpec.resolve
  refine RefusesFor.bind ?_ fun a => .pure _
  exact hmembers.bind fun members => (refusesFor_ofExcept hattributes).bind fun _ => .pure _

/-- A member is refused when its type is refused, or its attributes. -/
theorem refusesFor_resolve_member {type : Spec} {name : Option String}
    {attributes : Except Failure Attributes} (htype : RefusesFor C (type.resolve source lookup))
    (hattributes : RefusesFor C attributes) :
    RefusesFor C ((MemberSpec.member type name attributes).resolve source lookup) := by
  unfold MemberSpec.resolve
  exact htype.bind fun type => (refusesFor_ofExcept hattributes).bind fun _ => .pure _

theorem refusesFor_resolve_faultyMember {f : Failure}
    (h : RefusesFor C (.error f : Except Failure Unit)) :
    RefusesFor C ((MemberSpec.fault f).resolve source lookup) := by
  unfold MemberSpec.resolve
  exact h.failed rfl

theorem refusesFor_resolve_shapedMember {fields : Json.Fields} {type : Spec}
    (h : RefusesFor C (type.resolve source lookup)) :
    RefusesFor C ((shapedMember source place fields type).resolve source lookup) := by
  unfold shapedMember
  split
  · exact refusesFor_resolve_shaped h (refusesFor_dimensionsOf _)
  · split
    · exact h
    · exact h
    · exact refusesFor_resolve_shaped h (.ok _)
    · exact refusesFor_resolve_shaped h .problem

/-- A member is refused as a part of its document when its type is. -/
theorem refusesFor_resolve_memberOfJson {v : Json}
    (h : ∀ fields type, v = .object fields → Json.Fields.get? fields "type" = some type →
      RefusesFor C ((ofJson source (place ++ ["type"]) none type).resolve source lookup)) :
    RefusesFor C ((memberOfJson source place v).resolve source lookup) := by
  cases v with
  | object fields =>
    unfold memberOfJson
    dsimp only
    split
    · rename_i f hhead
      exact refusesFor_resolve_faultyMember ((refusesFor_memberHead fields).failed hhead)
    split
    · exact refusesFor_resolve_faultyMember .problem
    · rename_i type htype
      have htype := h fields type rfl htype
      split
      · exact refusesFor_resolve_member (refusesFor_resolve_shapedMember htype)
          (refusesFor_attributesOf fields)
      · cases type with
        | null => exact refusesFor_resolve_faultyMember .problem
        | _ =>
          exact refusesFor_resolve_member (refusesFor_resolve_bitfield htype)
            (refusesFor_attributesOf fields)
      · exact refusesFor_resolve_faultyMember .problem
  | null | bool | int | float | array | text =>
    unfold memberOfJson
    exact refusesFor_resolve_faultyMember .problem

theorem refusesFor_resolveMembers {items : List Json} (index : Nat)
    (h : ∀ fields type, .object fields ∈ items → Json.Fields.get? fields "type" = some type →
      ∀ place, RefusesFor C ((ofJson source place none type).resolve source lookup)) :
    RefusesFor C (resolveMembers source lookup (membersOfJson source place index items)) := by
  induction items generalizing index with
  | nil =>
    unfold membersOfJson resolveMembers
    exact .pure _
  | cons item items ih =>
    unfold membersOfJson resolveMembers
    refine (refusesFor_resolve_memberOfJson fun fields type hfields htype => ?_).bind fun x => ?_
    · exact h fields type (hfields ▸ List.mem_cons_self) htype _
    · have hrest := ih (index + 1) fun fields type hmem =>
        h fields type (List.mem_cons_of_mem item hmem)
      exact hrest.bind fun xs => .pure _

/-- **A type specification is refused as a part of its document**, unless the kind of one within it
is composite or a name in it leads to a refusal. -/
theorem refusesFor_resolve_ofJson
    (hlookup : ∀ place spelling, RefusesFor C (lookup place spelling)) (place : Place)
    (defaultName : Option String) : (v : Json) → (v.HasCompositeKind → C) →
      RefusesFor C ((ofJson source place defaultName v).resolve source lookup)
  | .text spelling, _ => by
    unfold ofJson
    exact hlookup _ _
  | .object fields, hv => by
    have hinside (key : String) (hkey : key ∈ ["type", "base", "element"]) (v : Json)
        (h : Json.Fields.get? fields key = some v) (hinner : v.HasCompositeKind) : C :=
      hv (.inside hkey h hinner)
    unfold ofJson
    dsimp only
    split
    · rename_i f hkind
      exact refusesFor_resolve_fault (((refusesFor_kindOf fields).mono hv).failed hkind)
    split
    · split
      · rename_i f hhead
        exact refusesFor_resolve_fault ((refusesFor_aggregateHead defaultName fields).failed hhead)
      split
      · rename_i items hitems
        refine refusesFor_resolve_aggregate ?_ (refusesFor_attributesOf fields)
        refine refusesFor_resolveMembers 0 fun member type hmember htype place => ?_
        have hsize : sizeOf type < sizeOf fields := by
          have hitemsSize := Json.Fields.sizeOf_lt_of_get? hitems
          have hmemberSize := List.sizeOf_lt_of_mem hmember
          have htypeSize := Json.Fields.sizeOf_lt_of_get? htype
          simp only [Json.array.sizeOf_spec, Json.object.sizeOf_spec] at hitemsSize hmemberSize
          omega
        exact refusesFor_resolve_ofJson hlookup place none type fun hinner =>
          hv (.member hitems hmember htype hinner)
      · exact refusesFor_resolve_fault .problem
    split
    · split
      · exact refusesFor_resolve_fault .problem
      · rename_i target htarget
        have hsize := Json.Fields.sizeOf_lt_of_get? htarget
        exact refusesFor_resolve_ofJson hlookup _ _ target (hinside "type" (by decide) target htarget)
    split
    · split
      · rename_i f hprimitive
        exact refusesFor_resolve_fault
          ((refusesFor_primitiveOf defaultName fields).failed hprimitive)
      · exact .pure _
    split
    · split
      · split
        · exact refusesFor_resolve_fault .problem
        · exact refusesFor_resolve_fault .problem
        · rename_i base hne hbase
          have hsize := Json.Fields.sizeOf_lt_of_get? hbase
          exact refusesFor_resolve_bitfield
            (refusesFor_resolve_ofJson hlookup _ _ base (hinside "base" (by decide) base hbase))
      · exact refusesFor_resolve_fault .problem
    · split
      · exact refusesFor_resolve_fault .problem
      · rename_i element helement
        have hsize := Json.Fields.sizeOf_lt_of_get? helement
        refine refusesFor_resolve_shaped (refusesFor_resolve_ofJson hlookup _ _ element
          (hinside "element" (by decide) element helement)) ?_
        split
        · exact .ok _
        · exact refusesFor_dimensionsOf _
  | .null, _ | .bool _, _ | .int _, _ | .float _, _ | .array _, _ => by
    unfold ofJson
    exact refusesFor_resolve_fault .problem
termination_by v => sizeOf v

end Resolve

end Spec

/-! ## Documents -/

theorem refusesFor_lookUp {entries : List Entry} {enter : String → Except Failure TypeNode}
    (h : ∀ name, RefusesFor C (enter name)) (place : Place) (spelling : String) :
    RefusesFor C (lookUp source entries enter place spelling) := by
  unfold lookUp
  split
  · exact .problem
  · exact .pure _
  · exact .pure _
  · exact h _

/-- An entry is refused like the specifications that are reached from it, or as one that contains
itself. -/
theorem refusesFor_resolveAnew {entries : List Entry}
    (h : ∀ e ∈ entries, ∀ lookup : Place → String → Except Failure TypeNode,
      (∀ place spelling, RefusesFor C (lookup place spelling)) →
        RefusesFor C (e.spec.resolve source lookup))
    (active : List String) (name : String) :
    RefusesFor C (resolveAnew source entries active name) := by
  -- Induction on the number of entries that are pending.
  induction hk : (pending entries active).length using Nat.strongRecOn generalizing active name with
  | ind k ih =>
    subst hk
    by_cases hn : name ∈ active
    · rw [resolveAnew_of_mem hn]
      exact .error (.layout _)
    cases he : entries.find? fun e => e.name == name with
    | none =>
      rw [resolveAnew_of_find?_eq_none hn he]
      exact .ok _
    | some e =>
      rw [resolveAnew_of_find?_eq_some hn he]
      refine h e (List.mem_of_find?_eq_some he) _ (refusesFor_lookUp fun name' => ?_)
      exact ih _ (length_pending_cons_lt hn he) (name :: active) name' rfl

namespace Document

theorem refusesFor_resolveAll {types : Json.Fields}
    (h : ∀ entry ∈ types, entry.2.HasCompositeKind → C) :
    RefusesFor C (resolveAll source (entriesOf source types)) := by
  rw [resolveAll_eq_mapM]
  refine .mapM fun e _ => (refusesFor_resolveAnew (fun e he lookup hlookup => ?_) [] e.name).map
  obtain ⟨⟨name, v⟩, hentry, rfl⟩ := List.mem_map.mp he
  exact Spec.refusesFor_resolve_ofJson hlookup _ _ v (h (name, v) hentry)

theorem refusesFor_profileOf {v : Option Json}
    (h : ∀ fields base, v = some (.object fields) → Json.Fields.get? fields "base" = some base →
      base.isComposite = true → C) : RefusesFor C (profileOf source v) := by
  unfold profileOf
  split
  · exact .ok _
  · exact .ok _
  · exact (Profile.refusesFor_named _).map
  · rename_i fields
    exact ((Profile.refusesFor_ofJson _ fields).mono fun ⟨base, hbase, hcomposite⟩ =>
      h fields base rfl hbase hcomposite).map
  · exact .error (.document _)

theorem refusesFor_ofJson (source : String) (v : Json) :
    RefusesFor (HasCompositeKey v) (ofJson source v) := by
  simp only [ofJson]
  split
  · rename_i fields
    split
    · split
      · rename_i types htypes
        refine RefusesFor.bind ?_ fun profile => RefusesFor.bind ?_ fun types => .pure _
        · exact refusesFor_profileOf fun profile base hprofile => .base hprofile
        · exact refusesFor_resolveAll fun entry hentry => .kind htypes hentry
      · exact .error (.document _)
    · exact .error_bind (.document _)
  · exact .error (.document _)

/-- **How reading a document ends**: in a document or in a failure that is announced, unless a
composite value stands where a look-up key is needed. -/
theorem ofJson_outcome (source : String) (v : Json) :
    (∃ d, ofJson source v = .ok d) ∨
      (∃ f, f.IsDocumented ∧ ofJson source v = .error f) ∨
      HasCompositeKey v ∧ ofJson source v = .error .compositeKey := by
  cases h : ofJson source v with
  | ok d => exact .inl ⟨d, rfl⟩
  | error f =>
    obtain hdocumented | ⟨rfl, hkey⟩ := refusesFor_ofJson source v f h
    · exact .inr (.inl ⟨f, hdocumented, rfl⟩)
    · exact .inr (.inr ⟨hkey, rfl⟩)

/-- A document in which a list stands as a kind. -/
def listAsKind : Json := .object [("types", .object [("S", .object [("kind", .array [])])])]

/-- **A list that stands as a kind** ends in a failure that is not announced. -/
theorem ofJson_listAsKind : ¬ ((∃ d, ofJson "<document>" listAsKind = .ok d) ∨
    ∃ f, f.IsDocumented ∧ ofJson "<document>" listAsKind = .error f) := by
  have hspec : Spec.ofJson "<document>" ["types", "S"] (some "S")
      (.object [("kind", .array [])]) = .fault .compositeKey := by
    simp [Spec.ofJson, Spec.kindOf, Json.Fields.get?, Json.isComposite]
  have hentry (entries : List Entry)
      (h : entries = [⟨"S", .fault .compositeKey, none⟩]) :
      resolveAnew "<document>" entries [] "S" = .error .compositeKey := by
    rw [resolveAnew_of_find?_eq_some (e := ⟨"S", .fault .compositeKey, none⟩) List.not_mem_nil
      (by simp [h])]
    unfold Spec.resolve
    rfl
  have hread : ofJson "<document>" listAsKind = .error .compositeKey := by
    simp [ofJson, listAsKind, Json.Fields.unknown, Json.Fields.keys, Json.Fields.get?, profileOf,
      resolveAll_eq_mapM, entriesOf, hspec, Spec.claimedKind?, hentry]
    rfl
  rw [hread]
  rintro (⟨d, h⟩ | ⟨f, hf, h⟩)
  · cases h
  · cases h
    cases hf

end Document

end RecordLayout
