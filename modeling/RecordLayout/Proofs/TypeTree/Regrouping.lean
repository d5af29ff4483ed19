import RecordLayout.Proofs.Report.ArrayShape
import RecordLayout.Proofs.TypeTree.Bare
import RecordLayout.TypeTree.Key

/-!
# Regrouped arrays

An array of arrays has as many elements as the flat array with the dimensions of both, and a
declaration writes the two in the same way.  Putting the flat array in the place of the nested one
is a step that can be taken anywhere in a type: at its root, in an element or in a member.

Such a step keeps whether the type can be a key, and how a name is declared with it.  The short name
of the type does not stay.

## Main definitions

* `TypeNode.Regrouped` says that one nested array somewhere in a type is made flat.

## Main results

* `TypeNode.Regrouped.isKey_eq`: the two types are keys together;
* `TypeNode.Regrouped.declare_eq`: the two are declared alike.
-/

namespace RecordLayout

namespace TypeNode

/-- One nested array somewhere in a type is made flat; its dimensions are positive numbers. -/
inductive Regrouped : TypeNode → TypeNode → Prop
  | here {e : TypeNode} {outer inner : List Int} (some_outer : outer ≠ []) (some_inner : inner ≠ [])
      (positive : ∀ n ∈ outer ++ inner, 0 < n) :
      Regrouped (.array (.array e (inner.map Json.int)) (outer.map Json.int))
        (.array e ((outer ++ inner).map Json.int))
  | array {e e' : TypeNode} {dims : List Json} (inside : Regrouped e e') :
      Regrouped (.array e dims) (.array e' dims)
  | flexibleArray {e e' : TypeNode} (inside : Regrouped e e') :
      Regrouped (.flexibleArray e) (.flexibleArray e')
  | member {a : Aggregate} {before after : List Member} {x : Member} {type : TypeNode}
      (members : a.members = before ++ x :: after) (inside : Regrouped x.type type) :
      Regrouped (.aggregate a)
        (.aggregate { a with members := before ++ { x with type := type } :: after })

namespace Regrouped

variable {t u : TypeNode}

/-- The name that a failure passes through at the root stays. -/
theorem rootName_eq (h : t.Regrouped u) : u.rootName = t.rootName := by
  cases h with
  | here | array | flexibleArray | member => rfl

/-- **The two types are keys together.** -/
theorem isKey_eq (h : t.Regrouped u) : u.isKey = t.isKey := by
  induction h with
  | here =>
    simp only [isKey, List.map_append, List.all_append]
    ac_rfl
  | array _ ih | flexibleArray _ ih => simp only [isKey, ih]
  | @member a before after x type members _ ih =>
    obtain ⟨kind, xs, name, pack, attributes, origin⟩ := a
    obtain rfl : xs = before ++ x :: after := members
    simp only [isKey, Aggregate.isKey, areKeys_eq_all, List.all_append, List.all_cons, ih]

/-- **The two types are declared alike.** -/
theorem declare_eq (h : t.Regrouped u) (indent name : String) :
    u.declare indent name = t.declare indent name := by
  induction h generalizing indent name with
  | here => rw [declare, declare, declare, List.map_append, brackets_append, String.append_assoc]
  | array _ ih | flexibleArray _ ih => rw [declare, declare, ih]
  | @member a before after x type members _ ih =>
    obtain ⟨kind, xs, tag, pack, attributes, origin⟩ := a
    obtain rfl : xs = before ++ x :: after := members
    have hline (indent : String) :
        Member.line indent { x with type := type } = x.line indent := by
      obtain ⟨type, name, attributes⟩ := x
      simp only [Member.line, ih]
    simp only [declare, Aggregate.declare, memberLines_eq_map, List.map_append, List.map_cons, hline]

end Regrouped

end TypeNode

end RecordLayout
