import RecordLayout.Proofs.TypeTree.Key

/-!
# Canonical types

A look-up does not tell a flag from a number, nor the place where an aggregate was written.  What it
does tell is in the canonical type: every constant is the whole number that it counts as, and no
aggregate has an origin.  Types that are the same key have the same canonical type.

A constant that counts as no whole number is taken for a missing one.  No layout accepts it, so that
nothing is lost by it.

## Main definitions

* `TypeNode.canonical` is the canonical type.

## Main results

* `TypeNode.canonical_eq_of_sameKey`: one key, one canonical type.
-/

namespace RecordLayout

/-! ## Canonical constants -/

/-- The whole number that a constant counts as. -/
def Json.canonical (v : Json) : Json := (v.number?.map Json.int).getD .null

/-- The number that a quantity counts as. -/
def Quantity.canonical (q : Quantity) : Quantity := .int q.value

/-- A scalar type whose size and alignment were written as numbers. -/
def Primitive.canonical (q : Primitive) : Primitive :=
  ⟨q.name, q.size.map Quantity.canonical, q.alignment.map Quantity.canonical⟩

@[simp] theorem Json.canonical_int (n : Int) : (Json.int n).canonical = .int n := rfl

@[simp] theorem Quantity.canonical_int (n : Int) : (Quantity.int n).canonical = .int n := rfl

@[simp] theorem Quantity.value_canonical (q : Quantity) : q.canonical.value = q.value := rfl

@[simp] theorem Primitive.canonical_name (q : Primitive) : q.canonical.name = q.name := rfl

theorem Json.canonical_eq_of_equals {v w : Json} (h : v.equals w = true) :
    v.canonical = w.canonical := by
  rw [canonical, canonical, number?_eq_of_equals h]

theorem canonical_eq_of_sameConstants {vs ws : List Json} (h : sameConstants vs ws = true) :
    vs.map Json.canonical = ws.map Json.canonical := by
  induction vs generalizing ws with
  | nil =>
    cases ws with
    | nil => rfl
    | cons w ws => cases h
  | cons v vs ih =>
    cases ws with
    | nil => cases h
    | cons w ws =>
      simp only [sameConstants, Bool.and_eq_true] at h
      rw [List.map_cons, List.map_cons, Json.canonical_eq_of_equals h.1, ih h.2]

theorem canonical_eq_of_sameConstant? {v w : Option Json} (h : sameConstant? v w = true) :
    v.map Json.canonical = w.map Json.canonical := by
  cases v with
  | none =>
    cases w with
    | none => rfl
    | some w => cases h
  | some v =>
    cases w with
    | none => cases h
    | some w => exact congrArg some (Json.canonical_eq_of_equals h)

theorem Quantity.canonical_eq_of_value {m n : Option Quantity} (h : m.map value = n.map value) :
    m.map canonical = n.map canonical := by
  have hcanonical : canonical = Quantity.int ∘ value := rfl
  rw [hcanonical, ← Option.map_map, h, Option.map_map]

theorem Primitive.canonical_eq_of_sameKey {q r : Primitive} (h : q.sameKey r = true) :
    q.canonical = r.canonical := by
  simp only [sameKey, Bool.and_eq_true, beq_iff_eq] at h
  obtain ⟨⟨hname, hsize⟩, halignment⟩ := h
  rw [canonical, canonical, hname, Quantity.canonical_eq_of_value hsize,
    Quantity.canonical_eq_of_value halignment]

/-! ## Canonical types -/

mutual
/-- A type of which only what a look-up tells is left. -/
def TypeNode.canonical : TypeNode → TypeNode
  | .primitive q => .primitive q.canonical
  | .aggregate a => .aggregate a.canonical
  | .array e dims => .array e.canonical (dims.map Json.canonical)
  | .flexibleArray e => .flexibleArray e.canonical
  | .bitfield base width => .bitfield base.canonical width.canonical
  | .incomplete label => .incomplete label
  | .unknown kind => .unknown kind

/-- An aggregate with a canonical pack and canonical members, written nowhere. -/
def Aggregate.canonical : Aggregate → Aggregate
  | ⟨kind, members, name, pack, attributes, _⟩ =>
    ⟨kind, canonicalMembers members, name, pack.map Json.canonical, attributes, .written []⟩

/-- Members of canonical types. -/
def canonicalMembers : List Member → List Member
  | [] => []
  | x :: xs => x.canonical :: canonicalMembers xs

/-- A member of a canonical type. -/
def Member.canonical : Member → Member
  | ⟨type, name, attributes⟩ => ⟨type.canonical, name, attributes⟩
end

theorem canonicalMembers_eq_map (xs : List Member) :
    canonicalMembers xs = xs.map Member.canonical := by
  induction xs with
  | nil => rfl
  | cons x xs ih => rw [canonicalMembers, ih, List.map_cons]

namespace Member

variable (x : Member)

@[simp] theorem canonical_type : x.canonical.type = x.type.canonical := by cases x; rfl

@[simp] theorem canonical_name : x.canonical.name = x.name := by cases x; rfl

@[simp] theorem canonical_attributes : x.canonical.attributes = x.attributes := by cases x; rfl

end Member

namespace Aggregate

variable (a : Aggregate)

@[simp] theorem canonical_kind : a.canonical.kind = a.kind := by cases a; rfl

@[simp] theorem canonical_name : a.canonical.name = a.name := by cases a; rfl

@[simp] theorem canonical_attributes : a.canonical.attributes = a.attributes := by cases a; rfl

@[simp] theorem canonical_pack : a.canonical.pack = a.pack.map Json.canonical := by cases a; rfl

@[simp] theorem canonical_members : a.canonical.members = a.members.map Member.canonical := by
  cases a
  exact canonicalMembers_eq_map _

theorem canonical_with_members (members : List Member) :
    ({ a with members } : Aggregate).canonical =
      { a.canonical with members := members.map Member.canonical } := by
  cases a
  simp only [canonical, canonicalMembers_eq_map]

end Aggregate

@[simp] theorem TypeNode.memberOnly?_canonical (node : TypeNode) :
    node.canonical.memberOnly? = node.memberOnly? := by
  cases node <;> rfl

/-! ## Keys -/

mutual
/-- **Types that are the same key have the same canonical type.** -/
theorem TypeNode.canonical_eq_of_sameKey : (m n : TypeNode) → m.sameKey n = true →
    m.canonical = n.canonical
  | .primitive q, .primitive r, h => by
    rw [TypeNode.canonical, TypeNode.canonical, Primitive.canonical_eq_of_sameKey h]
  | .aggregate a, .aggregate b, h => by
    rw [TypeNode.canonical, TypeNode.canonical, Aggregate.canonical_eq_of_sameKey a b h]
  | .array e dims, .array f dims', h => by
    simp only [TypeNode.sameKey, Bool.and_eq_true] at h
    rw [TypeNode.canonical, TypeNode.canonical, TypeNode.canonical_eq_of_sameKey e f h.1,
      canonical_eq_of_sameConstants h.2]
  | .flexibleArray e, .flexibleArray f, h => by
    rw [TypeNode.canonical, TypeNode.canonical, TypeNode.canonical_eq_of_sameKey e f h]
  | .bitfield q width, .bitfield r width', h => by
    simp only [TypeNode.sameKey, Bool.and_eq_true] at h
    rw [TypeNode.canonical, TypeNode.canonical, Primitive.canonical_eq_of_sameKey h.1,
      Json.canonical_eq_of_equals h.2]
  | .incomplete label, .incomplete label', h => by
    rw [TypeNode.sameKey, beq_iff_eq] at h
    rw [h]
  | .unknown kind, .unknown kind', h => by
    rw [TypeNode.sameKey, beq_iff_eq] at h
    rw [h]

theorem Aggregate.canonical_eq_of_sameKey : (a b : Aggregate) → a.sameKey b = true →
    a.canonical = b.canonical
  | ⟨_, members, _, _, _, _⟩, ⟨_, members', _, _, _, _⟩, h => by
    simp only [Aggregate.sameKey, Bool.and_eq_true, beq_iff_eq] at h
    obtain ⟨⟨⟨⟨rfl, hmembers⟩, rfl⟩, hpack⟩, rfl⟩ := h
    rw [Aggregate.canonical, Aggregate.canonical,
      canonicalMembers_eq_of_sameKeys members members' hmembers,
      canonical_eq_of_sameConstant? hpack]

theorem canonicalMembers_eq_of_sameKeys : (xs ys : List Member) → sameKeys xs ys = true →
    canonicalMembers xs = canonicalMembers ys
  | [], [], _ => rfl
  | x :: xs, y :: ys, h => by
    simp only [sameKeys, Bool.and_eq_true] at h
    rw [canonicalMembers, canonicalMembers, Member.canonical_eq_of_sameKey x y h.1,
      canonicalMembers_eq_of_sameKeys xs ys h.2]

theorem Member.canonical_eq_of_sameKey : (x y : Member) → x.sameKey y = true →
    x.canonical = y.canonical
  | ⟨type, _, _⟩, ⟨type', _, _⟩, h => by
    simp only [Member.sameKey, Bool.and_eq_true, beq_iff_eq] at h
    obtain ⟨⟨htype, rfl⟩, rfl⟩ := h
    rw [Member.canonical, Member.canonical, TypeNode.canonical_eq_of_sameKey type type' htype]
end

end RecordLayout
