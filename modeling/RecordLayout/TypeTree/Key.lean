import RecordLayout.TypeTree.Basic

/-!
# Types as look-up keys

When two types count as the same key of a store of layouts.  Where an aggregate was written does not
matter, and written constants are compared as numbers.  A type that holds a composite constant is
no key.

## Main definitions

* `TypeNode.isKey` says which types are keys;
* `TypeNode.sameKey` compares them.
-/

namespace RecordLayout

/-- Equality of optional constants, where a missing one equals only a missing one. -/
def sameConstant? : Option Json → Option Json → Bool
  | none, none => true
  | some v, some w => v.equals w
  | _, _ => false

/-- Equality of lists of constants, one by one. -/
def sameConstants : List Json → List Json → Bool
  | [], [] => true
  | v :: vs, w :: ws => v.equals w && sameConstants vs ws
  | _, _ => false

/-- Whether two scalar types are the same key: sizes and alignments count by their values. -/
def Primitive.sameKey (p q : Primitive) : Bool :=
  p.name == q.name && p.size.map Quantity.value == q.size.map Quantity.value
    && p.alignment.map Quantity.value == q.alignment.map Quantity.value

mutual
/-- Whether a type can be a key: no constant in it is composite. -/
def TypeNode.isKey : TypeNode → Bool
  | .primitive _ => true
  | .aggregate a => a.isKey
  | .array e dims => e.isKey && dims.all fun d => !d.isComposite
  | .flexibleArray e => e.isKey
  | .bitfield _ width => !width.isComposite
  | .incomplete _ => true
  | .unknown _ => true

/-- Whether an aggregate can be a key. -/
def Aggregate.isKey : Aggregate → Bool
  | ⟨_, members, _, pack, _, _⟩ => areKeys members && !(pack.any Json.isComposite)

/-- Whether all members can be part of a key. -/
def areKeys : List Member → Bool
  | [] => true
  | x :: xs => x.isKey && areKeys xs

/-- Whether a member can be part of a key. -/
def Member.isKey : Member → Bool
  | ⟨type, _, _⟩ => type.isKey
end

mutual
/-- Whether two types are the same key. -/
def TypeNode.sameKey : TypeNode → TypeNode → Bool
  | .primitive p, .primitive q => p.sameKey q
  | .aggregate a, .aggregate b => a.sameKey b
  | .array e dims, .array f dims' => e.sameKey f && sameConstants dims dims'
  | .flexibleArray e, .flexibleArray f => e.sameKey f
  | .bitfield p width, .bitfield q width' => p.sameKey q && width.equals width'
  | .incomplete n, .incomplete n' => n == n'
  | .unknown k, .unknown k' => k == k'
  | _, _ => false
termination_by structural x => x

/-- Whether two aggregates are the same key. -/
def Aggregate.sameKey : Aggregate → Aggregate → Bool
  | ⟨kind, members, name, pack, attributes, _⟩, ⟨kind', members', name', pack', attributes', _⟩ =>
    kind == kind' && sameKeys members members' && name == name' && sameConstant? pack pack'
      && attributes == attributes'
termination_by structural x => x

/-- Whether two lists of members are the same part of a key. -/
def sameKeys : List Member → List Member → Bool
  | [], [] => true
  | x :: xs, y :: ys => x.sameKey y && sameKeys xs ys
  | _, _ => false
termination_by structural x => x

/-- Whether two members are the same part of a key. -/
def Member.sameKey : Member → Member → Bool
  | ⟨type, name, attributes⟩, ⟨type', name', attributes'⟩ =>
    type.sameKey type' && name == name' && attributes == attributes'
termination_by structural x => x
end

end RecordLayout
