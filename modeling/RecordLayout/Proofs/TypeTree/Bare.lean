import RecordLayout.TypeTree.Key

/-!
# Types without their origins

Where an aggregate was written tells it apart from its equals, but neither its layout nor the
message of a failure depends on that.  A type without its origins is what is left when only the
equality of types counts.

A store of layouts compares keys by the values of the constants in them, so that a flag equals a
number.  For the types that a document yields all constants are numbers (`TypeNode.isIntegral`), and
two of them are the same key exactly when they are equal up to origins.

## Main definitions

* `TypeNode.bare` is a type without its origins;
* `TypeNode.isIntegral` says whether the constants in a type are whole numbers;
* `Hereditary` is what a class of types must be for an induction on types to stay in it.

## Main results

* `TypeNode.spelled_bare`, `TypeNode.describe_bare`: messages and reports show no origin;
* `TypeNode.bare_eq_of_sameKey`: keys with integral constants are equal up to origins;
* `TypeNode.isKey_of_isIntegral`: a type with integral constants is a key;
* `TypeNode.induction`: induction on types.
-/

namespace RecordLayout

/-! ## Forgetting origins -/

mutual
/-- A type without the places where its aggregates were written. -/
def TypeNode.bare : TypeNode → TypeNode
  | .primitive q => .primitive q
  | .aggregate a => .aggregate a.bare
  | .array e dims => .array e.bare dims
  | .flexibleArray e => .flexibleArray e.bare
  | .bitfield base width => .bitfield base width
  | .incomplete label => .incomplete label
  | .unknown kind => .unknown kind

/-- An aggregate without origins. -/
def Aggregate.bare : Aggregate → Aggregate
  | ⟨kind, members, name, pack, attributes, _⟩ =>
    ⟨kind, bareMembers members, name, pack, attributes, .written []⟩

/-- Members without origins. -/
def bareMembers : List Member → List Member
  | [] => []
  | x :: xs => x.bare :: bareMembers xs

/-- A member without origins. -/
def Member.bare : Member → Member
  | ⟨type, name, attributes⟩ => ⟨type.bare, name, attributes⟩
end

theorem bareMembers_eq_map (xs : List Member) : bareMembers xs = xs.map Member.bare := by
  induction xs with
  | nil => rfl
  | cons x xs ih => rw [bareMembers, ih, List.map_cons]

namespace Aggregate

variable (a : Aggregate)

@[simp] theorem bare_kind : a.bare.kind = a.kind := by cases a; rfl

@[simp] theorem bare_name : a.bare.name = a.name := by cases a; rfl

end Aggregate

namespace Member

variable (x : Member)

@[simp] theorem bare_name : x.bare.name = x.name := by cases x; rfl

end Member

namespace TypeNode

@[simp] theorem memberOnly?_bare (node : TypeNode) : node.bare.memberOnly? = node.memberOnly? := by
  cases node <;> rfl

/-- **Reports show no origin.** -/
@[simp] theorem describe_bare : (node : TypeNode) → node.bare.describe = node.describe
  | .array e dims => by simp only [bare, describe, describe_bare e]
  | .flexibleArray e => by simp only [bare, describe, describe_bare e]
  | .aggregate a => by simp only [bare, describe, Aggregate.bare_name, Aggregate.bare_kind]
  | .primitive _ | .bitfield _ _ | .incomplete _ | .unknown _ => rfl

end TypeNode

mutual
/-- **Messages show no origin.** -/
@[simp] theorem TypeNode.spelled_bare : (node : TypeNode) → node.bare.spelled = node.spelled
  | .aggregate a => Aggregate.spelled_bare a
  | .array e dims =>
    congrArg
      (fun s => "Array(element=" ++ s ++ ", dimensions=" ++ spellTuple (dims.map Json.quoted)
        ++ ")")
      (TypeNode.spelled_bare e)
  | .flexibleArray e =>
    congrArg (fun s => "FlexibleArray(element=" ++ s ++ ")") (TypeNode.spelled_bare e)
  | .primitive _ | .bitfield _ _ | .incomplete _ | .unknown _ => rfl

theorem Aggregate.spelled_bare : (a : Aggregate) → a.bare.spelled = a.spelled
  | ⟨kind, members, name, pack, attributes, _⟩ =>
    congrArg
      (fun items => kind.spelled ++ "(members=" ++ spellTuple items ++ ", name="
        ++ spellName name ++ ", pack=" ++ (pack.map Json.quoted).getD "None" ++ ", attributes="
        ++ attributes.spelled ++ ")")
      (spelledMembers_bare members)

theorem spelledMembers_bare : (xs : List Member) →
    spelledMembers (bareMembers xs) = spelledMembers xs
  | [] => rfl
  | x :: xs => by
    have h := congrArg (· :: spelledMembers (bareMembers xs)) (Member.spelled_bare x)
    exact h.trans (congrArg (x.spelled :: ·) (spelledMembers_bare xs))

theorem Member.spelled_bare : (x : Member) → x.bare.spelled = x.spelled
  | ⟨type, name, attributes⟩ =>
    congrArg
      (fun s => "Member(type=" ++ s ++ ", name=" ++ spellName name ++ ", attributes="
        ++ attributes.spelled ++ ")")
      (TypeNode.spelled_bare type)
end

/-! ## Integral constants -/

/-- Whether a constant is a whole number. -/
def Json.isIntegral : Json → Bool
  | .int _ => true
  | _ => false

/-- Whether a constant is a whole number or a text, as the dimensions of an array may be. -/
def Json.isDimension : Json → Bool
  | .int _ | .text _ => true
  | _ => false

/-- Whether the size and the alignment of a scalar type were written as numbers, if at all. -/
def Primitive.isIntegral (q : Primitive) : Bool :=
  q.size.all (!·.isFlag) && q.alignment.all (!·.isFlag)

mutual
/-- Whether the constants in a type are whole numbers; dimensions may also be texts. -/
def TypeNode.isIntegral : TypeNode → Bool
  | .primitive q => q.isIntegral
  | .aggregate a => a.isIntegral
  | .array e dims => e.isIntegral && dims.all Json.isDimension
  | .flexibleArray e => e.isIntegral
  | .bitfield base width => base.isIntegral && width.isIntegral
  | .incomplete _ => true
  | .unknown _ => true

/-- Whether the constants in an aggregate are whole numbers. -/
def Aggregate.isIntegral : Aggregate → Bool
  | ⟨_, members, _, pack, _, _⟩ => areIntegral members && pack.all Json.isIntegral

/-- Whether the constants in all members are whole numbers. -/
def areIntegral : List Member → Bool
  | [] => true
  | x :: xs => x.isIntegral && areIntegral xs

/-- Whether the constants in a member are whole numbers. -/
def Member.isIntegral : Member → Bool
  | ⟨type, _, _⟩ => type.isIntegral
end

/-! ### Integral types as keys -/

namespace Json

theorem int_or_text_of_isDimension {d : Json} (h : d.isDimension = true) :
    (∃ n, d = .int n) ∨ ∃ s, d = .text s := by
  cases d with
  | int n => exact .inl ⟨n, rfl⟩
  | text s => exact .inr ⟨s, rfl⟩
  | null | bool | float | array | object => cases h

theorem not_isComposite_of_isDimension {d : Json} (h : d.isDimension = true) :
    d.isComposite = false := by
  rcases int_or_text_of_isDimension h with ⟨n, rfl⟩ | ⟨s, rfl⟩ <;> rfl

theorem isDimension_of_isIntegral {v : Json} (h : v.isIntegral = true) : v.isDimension = true := by
  cases v <;> first | rfl | cases h

/-- Whole numbers and texts are equal as keys when they are equal. -/
theorem eq_of_equals {v w : Json} (hv : v.isDimension = true) (hw : w.isDimension = true)
    (h : v.equals w = true) : v = w := by
  rcases int_or_text_of_isDimension hv with ⟨m, rfl⟩ | ⟨s, rfl⟩ <;>
    rcases int_or_text_of_isDimension hw with ⟨n, rfl⟩ | ⟨t, rfl⟩ <;>
    simp_all [equals, number?]

end Json

theorem eq_of_sameConstants {vs ws : List Json} (hv : vs.all Json.isDimension = true)
    (hw : ws.all Json.isDimension = true) (h : sameConstants vs ws = true) : vs = ws := by
  induction vs generalizing ws with
  | nil =>
    cases ws with
    | nil => rfl
    | cons w ws => cases h
  | cons v vs ih =>
    cases ws with
    | nil => cases h
    | cons w ws =>
      simp only [List.all_cons, Bool.and_eq_true] at hv hw
      simp only [sameConstants, Bool.and_eq_true] at h
      rw [Json.eq_of_equals hv.1 hw.1 h.1, ih hv.2 hw.2 h.2]

theorem eq_of_sameConstant? {v w : Option Json} (hv : v.all Json.isIntegral = true)
    (hw : w.all Json.isIntegral = true) (h : sameConstant? v w = true) : v = w := by
  cases v with
  | none =>
    cases w with
    | none => rfl
    | some w => cases h
  | some v =>
    cases w with
    | none => cases h
    | some w =>
      rw [Json.eq_of_equals (Json.isDimension_of_isIntegral hv)
        (Json.isDimension_of_isIntegral hw) h]

/-- Numbers are equal when they count the same. -/
theorem Quantity.eq_of_value {m n : Option Quantity} (hm : m.all (!·.isFlag) = true)
    (hn : n.all (!·.isFlag) = true) (h : m.map value = n.map value) : m = n := by
  cases m with
  | none =>
    cases n with
    | none => rfl
    | some n => cases h
  | some m =>
    cases n with
    | none => cases h
    | some n =>
      cases m <;> cases n <;> simp_all [isFlag, value]

theorem Primitive.eq_of_sameKey {q r : Primitive} (hq : q.isIntegral = true)
    (hr : r.isIntegral = true) (h : q.sameKey r = true) : q = r := by
  obtain ⟨name, size, alignment⟩ := q
  obtain ⟨name', size', alignment'⟩ := r
  simp only [isIntegral, Bool.and_eq_true] at hq hr
  simp only [sameKey, Bool.and_eq_true, beq_iff_eq] at h
  obtain ⟨⟨rfl, hsize⟩, halignment⟩ := h
  rw [Quantity.eq_of_value hq.1 hr.1 hsize, Quantity.eq_of_value hq.2 hr.2 halignment]

mutual
/-- **Types with integral constants are the same key only if they are equal up to origins.** -/
theorem TypeNode.bare_eq_of_sameKey : (m n : TypeNode) → m.isIntegral = true →
    n.isIntegral = true → m.sameKey n = true → m.bare = n.bare
  | .primitive q, .primitive r, hm, hn, h => by
    rw [Primitive.eq_of_sameKey hm hn h]
  | .aggregate a, .aggregate b, hm, hn, h => by
    simp only [TypeNode.bare, Aggregate.bare_eq_of_sameKey a b hm hn h]
  | .array e dims, .array f dims', hm, hn, h => by
    simp only [TypeNode.isIntegral, Bool.and_eq_true] at hm hn
    simp only [TypeNode.sameKey, Bool.and_eq_true] at h
    simp only [TypeNode.bare, TypeNode.bare_eq_of_sameKey e f hm.1 hn.1 h.1,
      eq_of_sameConstants hm.2 hn.2 h.2]
  | .flexibleArray e, .flexibleArray f, hm, hn, h => by
    simp only [TypeNode.bare, TypeNode.bare_eq_of_sameKey e f hm hn h]
  | .bitfield q width, .bitfield r width', hm, hn, h => by
    simp only [TypeNode.isIntegral, Bool.and_eq_true] at hm hn
    simp only [TypeNode.sameKey, Bool.and_eq_true] at h
    rw [Primitive.eq_of_sameKey hm.1 hn.1 h.1,
      Json.eq_of_equals (Json.isDimension_of_isIntegral hm.2) (Json.isDimension_of_isIntegral hn.2)
        h.2]
  | .incomplete label, .incomplete label', _, _, h => by
    rw [TypeNode.sameKey, beq_iff_eq] at h
    rw [h]
  | .unknown kind, .unknown kind', _, _, h => by
    rw [TypeNode.sameKey, beq_iff_eq] at h
    rw [h]

theorem Aggregate.bare_eq_of_sameKey : (a b : Aggregate) → a.isIntegral = true →
    b.isIntegral = true → a.sameKey b = true → a.bare = b.bare
  | ⟨_, members, _, _, _, _⟩, ⟨_, members', _, _, _, _⟩, ha, hb, h => by
    simp only [Aggregate.isIntegral, Bool.and_eq_true] at ha hb
    simp only [Aggregate.sameKey, Bool.and_eq_true, beq_iff_eq] at h
    obtain ⟨⟨⟨⟨rfl, hmembers⟩, rfl⟩, hpack⟩, rfl⟩ := h
    simp only [Aggregate.bare, bareMembers_eq_of_sameKeys members members' ha.1 hb.1 hmembers,
      eq_of_sameConstant? ha.2 hb.2 hpack]

theorem bareMembers_eq_of_sameKeys : (xs ys : List Member) → areIntegral xs = true →
    areIntegral ys = true → sameKeys xs ys = true → bareMembers xs = bareMembers ys
  | [], [], _, _, _ => rfl
  | x :: xs, y :: ys, hx, hy, h => by
    simp only [areIntegral, Bool.and_eq_true] at hx hy
    simp only [sameKeys, Bool.and_eq_true] at h
    simp only [bareMembers, Member.bare_eq_of_sameKey x y hx.1 hy.1 h.1,
      bareMembers_eq_of_sameKeys xs ys hx.2 hy.2 h.2]

theorem Member.bare_eq_of_sameKey : (x y : Member) → x.isIntegral = true →
    y.isIntegral = true → x.sameKey y = true → x.bare = y.bare
  | ⟨type, _, _⟩, ⟨type', _, _⟩, hx, hy, h => by
    simp only [Member.sameKey, Bool.and_eq_true, beq_iff_eq] at h
    obtain ⟨⟨htype, rfl⟩, rfl⟩ := h
    simp only [Member.bare, TypeNode.bare_eq_of_sameKey type type' hx hy htype]
end

mutual
/-- A type with integral constants is a key. -/
theorem TypeNode.isKey_of_isIntegral : (node : TypeNode) → node.isIntegral = true →
    node.isKey = true
  | .aggregate a, h => Aggregate.isKey_of_isIntegral a h
  | .array e dims, h => by
    simp only [TypeNode.isIntegral, Bool.and_eq_true, List.all_eq_true] at h
    simp only [TypeNode.isKey, Bool.and_eq_true, List.all_eq_true,
      TypeNode.isKey_of_isIntegral e h.1, true_and]
    intro d hd
    rw [Json.not_isComposite_of_isDimension (h.2 d hd), Bool.not_false]
  | .flexibleArray e, h => TypeNode.isKey_of_isIntegral e h
  | .bitfield base width, h => by
    simp only [TypeNode.isIntegral, Bool.and_eq_true] at h
    rw [TypeNode.isKey,
      Json.not_isComposite_of_isDimension (Json.isDimension_of_isIntegral h.2), Bool.not_false]
  | .primitive _, _ | .incomplete _, _ | .unknown _, _ => rfl

theorem Aggregate.isKey_of_isIntegral : (a : Aggregate) → a.isIntegral = true → a.isKey = true
  | ⟨_, members, _, pack, _, _⟩, h => by
    simp only [Aggregate.isIntegral, Bool.and_eq_true] at h
    rw [Aggregate.isKey, areKeys_of_areIntegral members h.1, Bool.true_and]
    cases pack with
    | none => rfl
    | some v =>
      rw [Option.any_some,
        Json.not_isComposite_of_isDimension (Json.isDimension_of_isIntegral h.2), Bool.not_false]

theorem areKeys_of_areIntegral : (xs : List Member) → areIntegral xs = true → areKeys xs = true
  | [], _ => rfl
  | x :: xs, h => by
    simp only [areIntegral, Bool.and_eq_true] at h
    rw [areKeys, Member.isKey_of_isIntegral x h.1, areKeys_of_areIntegral xs h.2, Bool.and_true]

theorem Member.isKey_of_isIntegral : (x : Member) → x.isIntegral = true → x.isKey = true
  | ⟨type, _, _⟩, h => TypeNode.isKey_of_isIntegral type h
end

/-! ## Classes of types -/

/-- **Induction on types**: the members of an aggregate are smaller than the aggregate. -/
@[elab_as_elim]
theorem TypeNode.induction {motive : TypeNode → Prop} (primitive : ∀ q, motive (.primitive q))
    (aggregate : ∀ a : Aggregate, (∀ x ∈ a.members, motive x.type) → motive (.aggregate a))
    (array : ∀ e dims, motive e → motive (.array e dims))
    (flexibleArray : ∀ e, motive e → motive (.flexibleArray e))
    (bitfield : ∀ base width, motive (.bitfield base width))
    (incomplete : ∀ label, motive (.incomplete label)) (unknown : ∀ kind, motive (.unknown kind))
    (node : TypeNode) : motive node :=
  @TypeNode.rec motive (fun a => ∀ x ∈ a.members, motive x.type) (fun x => motive x.type)
    (fun xs => ∀ x ∈ xs, motive x.type) primitive aggregate array flexibleArray bitfield incomplete
    unknown (fun _ _ _ _ _ _ members => members) (fun _ _ _ type => type) nofun
    (fun _ _ head tail => List.forall_mem_cons.mpr ⟨head, tail⟩) node

/-- A class of types that has the parts of the types in it. -/
structure Hereditary (D : TypeNode → Prop) : Prop where
  array : ∀ {e dims}, D (.array e dims) → D e
  flexibleArray : ∀ {e}, D (.flexibleArray e) → D e
  aggregate : ∀ {a}, D (.aggregate a) → ∀ x ∈ a.members, D x.type

theorem hereditary_true : Hereditary fun _ => True :=
  ⟨fun _ => trivial, fun _ => trivial, fun _ _ _ => trivial⟩

theorem areKeys_eq_all (xs : List Member) : areKeys xs = xs.all fun x => x.type.isKey := by
  induction xs with
  | nil => rfl
  | cons x xs ih =>
    cases x
    rw [areKeys, Member.isKey, ih, List.all_cons]

theorem areIntegral_eq_all (xs : List Member) :
    areIntegral xs = xs.all fun x => x.type.isIntegral := by
  induction xs with
  | nil => rfl
  | cons x xs ih =>
    cases x
    rw [areIntegral, Member.isIntegral, ih, List.all_cons]

theorem hereditary_isKey : Hereditary fun node => node.isKey = true where
  array h := (Bool.and_eq_true_iff.mp h).1
  flexibleArray h := h
  aggregate {a} h := by
    obtain ⟨kind, members, name, pack, attributes, origin⟩ := a
    have hmembers : areKeys members = true := (Bool.and_eq_true_iff.mp h).1
    rw [areKeys_eq_all] at hmembers
    exact List.all_eq_true.mp hmembers

theorem hereditary_isIntegral : Hereditary fun node => node.isIntegral = true where
  array h := (Bool.and_eq_true_iff.mp h).1
  flexibleArray h := h
  aggregate {a} h := by
    obtain ⟨kind, members, name, pack, attributes, origin⟩ := a
    have hmembers : areIntegral members = true := (Bool.and_eq_true_iff.mp h).1
    rw [areIntegral_eq_all] at hmembers
    exact List.all_eq_true.mp hmembers

end RecordLayout
