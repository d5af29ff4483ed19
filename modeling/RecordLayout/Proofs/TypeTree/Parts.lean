import RecordLayout.Proofs.TypeTree.Bare

/-!
# Parts of a type

The types of which a type is made by value: its elements, the types of its members, and theirs in
turn.  What holds of a type and passes from a type to what it is made of holds of all its parts, so
a class of types that an induction on types stays in (`Hereditary`) is a class that has the parts
of the types in it.

## Main definitions

* `TypeNode.IsPartOf` says that a type is contained in another one by value;
* `ToldApart` says that origins tell the aggregates of a class of types apart;
* `TypeNode.relabelled` is a type with other origins.

## Main results

* `TypeNode.IsPartOf.trans`: the parts of a part are parts;
* `Hereditary.of_isPartOf`: a hereditary class has the parts of the types in it.
-/

namespace RecordLayout

namespace TypeNode

/-- A type is contained in another one by value. -/
inductive IsPartOf (t : TypeNode) : TypeNode → Prop
  | self : t.IsPartOf t
  | array {e : TypeNode} {dims : List Json} (inside : t.IsPartOf e) : t.IsPartOf (.array e dims)
  | flexibleArray {e : TypeNode} (inside : t.IsPartOf e) : t.IsPartOf (.flexibleArray e)
  | member {a : Aggregate} {x : Member} (mem : x ∈ a.members) (inside : t.IsPartOf x.type) :
      t.IsPartOf (.aggregate a)

/-- The parts of a part are parts. -/
theorem IsPartOf.trans {t u v : TypeNode} (h : t.IsPartOf u) (h' : u.IsPartOf v) :
    t.IsPartOf v := by
  induction h' with
  | self => exact h
  | array inside ih => exact .array ih
  | flexibleArray inside ih => exact .flexibleArray ih
  | member mem inside ih => exact .member mem ih

end TypeNode

/-- An aggregate is contained in another one by value. -/
abbrev Aggregate.IsInside (a b : Aggregate) : Prop :=
  (TypeNode.aggregate a).IsPartOf (.aggregate b)

/-- Origins tell the aggregates of a class of types apart. -/
def ToldApart (C : TypeNode → Prop) : Prop :=
  ∀ a b : Aggregate, C (.aggregate a) → C (.aggregate b) → a.origin = b.origin → a = b

/-- **A hereditary class has the parts** of the types in it. -/
theorem Hereditary.of_isPartOf {D : TypeNode → Prop} (hD : Hereditary D) {t node : TypeNode}
    (h : t.IsPartOf node) (hnode : D node) : D t := by
  induction h with
  | self => exact hnode
  | array inside ih => exact ih (hD.array hnode)
  | flexibleArray inside ih => exact ih (hD.flexibleArray hnode)
  | @member a x mem inside ih => exact ih (hD.aggregate hnode x mem)

/-- The parts of the types in a class are a hereditary class. -/
theorem hereditary_parts (R : TypeNode → Prop) :
    Hereditary fun t => ∃ root, R root ∧ t.IsPartOf root where
  array := by
    rintro e dims ⟨root, hroot, hpart⟩
    exact ⟨root, hroot, .trans (.array .self) hpart⟩
  flexibleArray := by
    rintro e ⟨root, hroot, hpart⟩
    exact ⟨root, hroot, .trans (.flexibleArray .self) hpart⟩
  aggregate := by
    rintro a ⟨root, hroot, hpart⟩ x hx
    exact ⟨root, hroot, .trans (.member hx .self) hpart⟩

theorem Hereditary.and {C D : TypeNode → Prop} (hC : Hereditary C) (hD : Hereditary D) :
    Hereditary fun t => C t ∧ D t where
  array h := ⟨hC.array h.1, hD.array h.2⟩
  flexibleArray h := ⟨hC.flexibleArray h.1, hD.flexibleArray h.2⟩
  aggregate h x hx := ⟨hC.aggregate h.1 x hx, hD.aggregate h.2 x hx⟩

/-! ## Types of several sources

Two sources may use one origin for aggregates of their own.  Types of several sources are told apart
by origins that are marked with their source. -/

mutual
/-- A type with other origins. -/
def TypeNode.relabelled (mark : Origin → Origin) : TypeNode → TypeNode
  | .primitive q => .primitive q
  | .aggregate a => .aggregate (a.relabelled mark)
  | .array e dims => .array (e.relabelled mark) dims
  | .flexibleArray e => .flexibleArray (e.relabelled mark)
  | .bitfield base width => .bitfield base width
  | .incomplete label => .incomplete label
  | .unknown kind => .unknown kind

/-- An aggregate with other origins. -/
def Aggregate.relabelled (mark : Origin → Origin) : Aggregate → Aggregate
  | ⟨kind, members, name, pack, attributes, origin⟩ =>
    ⟨kind, relabelledMembers mark members, name, pack, attributes, mark origin⟩

/-- Members with other origins. -/
def relabelledMembers (mark : Origin → Origin) : List Member → List Member
  | [] => []
  | x :: xs => x.relabelled mark :: relabelledMembers mark xs

/-- A member with other origins. -/
def Member.relabelled (mark : Origin → Origin) : Member → Member
  | ⟨type, name, attributes⟩ => ⟨type.relabelled mark, name, attributes⟩
end

section Relabelled

variable (mark : Origin → Origin)

theorem Aggregate.relabelled_origin (a : Aggregate) :
    (a.relabelled mark).origin = mark a.origin := by
  cases a
  rfl

theorem Aggregate.exists_of_mem_relabelled {a : Aggregate} {y : Member}
    (hy : y ∈ (a.relabelled mark).members) :
    ∃ x ∈ a.members, y.type = x.type.relabelled mark := by
  obtain ⟨kind, members, name, pack, attributes, origin⟩ := a
  change y ∈ relabelledMembers mark members at hy
  change ∃ x ∈ members, y.type = x.type.relabelled mark
  induction members with
  | nil => exact absurd hy List.not_mem_nil
  | cons x xs ih =>
    rcases List.mem_cons.mp hy with rfl | hy
    · exact ⟨x, List.mem_cons_self, by cases x; rfl⟩
    · obtain ⟨x', hx', htype⟩ := ih hy
      exact ⟨x', List.mem_cons_of_mem x hx', htype⟩

variable {mark}

/-- The parts of a type with other origins are its parts with other origins. -/
theorem TypeNode.IsPartOf.exists_of_relabelled {t u : TypeNode}
    (h : u.IsPartOf (t.relabelled mark)) : ∃ s : TypeNode, u = s.relabelled mark ∧ s.IsPartOf t := by
  generalize hroot : t.relabelled mark = root at h
  induction h generalizing t with
  | self => exact ⟨t, hroot.symm, .self⟩
  | array inside ih =>
    cases t with
    | array e dims =>
      obtain ⟨s, hs, hpart⟩ := ih (TypeNode.array.inj hroot).1
      exact ⟨s, hs, .array hpart⟩
    | _ => exact absurd hroot nofun
  | flexibleArray inside ih =>
    cases t with
    | flexibleArray e =>
      obtain ⟨s, hs, hpart⟩ := ih (TypeNode.flexibleArray.inj hroot)
      exact ⟨s, hs, .flexibleArray hpart⟩
    | _ => exact absurd hroot nofun
  | member mem inside ih =>
    cases t with
    | aggregate a =>
      obtain rfl := TypeNode.aggregate.inj hroot
      obtain ⟨x, hx, htype⟩ := a.exists_of_mem_relabelled mark mem
      obtain ⟨s, hs, hpart⟩ := ih htype.symm
      exact ⟨s, hs, .member hx hpart⟩
    | _ => exact absurd hroot nofun

end Relabelled

end RecordLayout
