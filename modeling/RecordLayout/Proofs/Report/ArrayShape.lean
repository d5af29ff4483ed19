import RecordLayout.Proofs.Report.Declarations
import RecordLayout.Proofs.Text.Blank

/-!
# Shapes of arrays

An array of arrays has the dimensions of several levels.  A declaration writes those of the outer
array first: the walk goes from the outside in and puts the brackets of each level behind the name.
The short name of a type in a report is put together on the way back, so it has the brackets of the
innermost level first, and within a level the two write the dimensions in the same order.

So the two show one shape where there is one level, as in an array of several dimensions.  Levels
that have equally many dimensions, as when each has one, show one shape exactly when they read the
same from both ends.  Two rows of three numbers each are declared with `[2][3]` and reported with
`[3][2]`.

## Main definitions

* `TypeNode.levels` are the brackets of an array, level by level from the outside in;
* `TypeNode.core` is what an array holds in the end;
* `TypeNode.IsNamed` says that a type is declared by its name alone.

## Main results

* `TypeNode.describe_eq`: the short name of a type has the levels from the inside out;
* `TypeNode.declare_eq`: a declaration has them from the outside in;
* `TypeNode.describe_declare`: when the two show the same shape.
-/

namespace RecordLayout

namespace TypeNode

/-- A dimension in brackets, as it was written. -/
def bracketed (d : Json) : String := "[" ++ d.plain ++ "]"

theorem brackets_eq (dims : List Json) : brackets dims = String.join (dims.map bracketed) := rfl

theorem brackets_append (dims dims' : List Json) :
    brackets (dims ++ dims') = brackets dims ++ brackets dims' := by
  simp [brackets_eq]

theorem keepsEnd_bracketed (d : Json) : Text.KeepsEnd (bracketed d) := by
  have hclose : Text.KeepsEnd "]" := Text.keepsEnd_of_any (by decide) (by decide)
  exact hclose.append ("[" ++ d.plain)

/-- The brackets of an array, level by level from the outside in. -/
def levels : TypeNode → List (List String)
  | .array e dims => dims.map bracketed :: e.levels
  | .flexibleArray e => ["[]"] :: e.levels
  | _ => []

/-- What an array, open-ended or not, holds in the end. -/
def core : TypeNode → TypeNode
  | .array e _ => e.core
  | .flexibleArray e => e.core
  | node => node

/-- A type is declared by its name alone: a primitive that is no pointer, an aggregate with a tag,
or a type that is only declared. -/
def IsNamed : TypeNode → Prop
  | .primitive p => p.name ≠ "pointer" ∧ TypeName.isPointer p.name = false
  | .aggregate a => a.IsTagged
  | .incomplete _ => True
  | _ => False

/-- **The short name of a type has the levels from the inside out.** -/
theorem describe_eq : (node : TypeNode) →
    node.describe = node.core.describe ++ String.join node.levels.reverse.flatten
  | .array e dims => by
    rw [describe, describe_eq e, brackets_eq, levels, core]
    simp [String.append_assoc]
  | .flexibleArray e => by
    rw [describe, describe_eq e, levels, core]
    simp [String.append_assoc]
  | .primitive _ | .aggregate _ | .bitfield _ _ | .incomplete _ | .unknown _ => by
    simp [levels, core]

/-- A name that keeps its end is declared behind the name of the type. -/
theorem declare_of_isNamed {node : TypeNode} (h : node.IsNamed) (indent : String) {name : String}
    (hname : Text.KeepsEnd name) : node.declare indent name = node.describe ++ " " ++ name := by
  cases node with
  | primitive p =>
    obtain ⟨hpointer, hstar⟩ := h
    have hlast : ¬ p.name.toList.getLast? = some '*' := by
      simpa [TypeName.isPointer] using hstar
    rw [declare, Primitive.declare, if_neg hpointer, if_neg hlast, describe]
    exact (hname.append _).stripEnd_eq
  | aggregate a =>
    obtain ⟨kind, members, tag, pack, attributes, origin⟩ := a
    obtain ⟨tag', htag⟩ := Option.isSome_iff_exists.mp h
    rw [declare, Aggregate.declare, describe]
    dsimp only at htag ⊢
    rw [htag]
    exact (hname.append _).stripEnd_eq
  | incomplete label => exact (hname.append _).stripEnd_eq
  | array | flexibleArray | bitfield | unknown => exact h.elim

/-- **A declaration has the levels from the outside in**, behind the name. -/
theorem declare_eq (indent : String) : (node : TypeNode) → node.core.IsNamed → {name : String} →
    Text.KeepsEnd name →
    node.declare indent name =
      node.core.describe ++ " " ++ name ++ String.join node.levels.flatten
  | .array e dims, h, name, hname => by
    have hgrown : Text.KeepsEnd (name ++ brackets dims) :=
      hname.append_join (List.forall_mem_map.mpr fun d _ => keepsEnd_bracketed d)
    rw [declare, declare_eq indent e h hgrown, brackets_eq, levels, core]
    simp [String.append_assoc]
  | .flexibleArray e, h, name, hname => by
    have hopen : Text.KeepsEnd "[]" := Text.keepsEnd_of_any (by decide) (by decide)
    rw [declare, declare_eq indent e h (hopen.append name), levels, core]
    simp [String.append_assoc]
  | .primitive _, h, _, hname | .aggregate _, h, _, hname | .bitfield _ _, h, _, hname
  | .incomplete _, h, _, hname | .unknown _, h, _, hname => by
    simp only [core, levels] at h ⊢
    rw [declare_of_isNamed h indent hname]
    simp

/-- Lists of one length read the same in either order exactly when their items do. -/
theorem flatten_reverse_eq_iff {α : Type} {lists : List (List α)}
    (h : ∀ l ∈ lists, ∀ m ∈ lists, l.length = m.length) :
    lists.reverse.flatten = lists.flatten ↔ lists.reverse = lists := by
  refine ⟨fun hflat => List.eq_iff_flatten_eq.mpr ⟨hflat, ?_⟩, congrArg List.flatten⟩
  rw [List.map_reverse]
  cases lists with
  | nil => rfl
  | cons l lists =>
    have hlengths : (l :: lists).map List.length = List.replicate (lists.length + 1) l.length := by
      refine List.eq_replicate_iff.mpr ⟨List.length_map .., List.forall_mem_map.mpr fun m hm => ?_⟩
      exact h m hm l List.mem_cons_self
    rw [hlengths, List.reverse_replicate]

/-- **When reports and declarations show the same shape.**  The short name of a type ends with its
levels from the inside out, and a declaration has them from the outside in behind the name.  The two
sequences are the same when there is one level.  Where all levels have equally many dimensions, they
are the same exactly when the levels read the same from both ends. -/
theorem describe_declare {node : TypeNode} (h : node.core.IsNamed) (indent : String) {name : String}
    (hname : Text.KeepsEnd name) :
    node.describe = node.core.describe ++ String.join node.levels.reverse.flatten ∧
      node.declare indent name =
        node.core.describe ++ " " ++ name ++ String.join node.levels.flatten ∧
      (node.levels.length ≤ 1 → node.levels.reverse.flatten = node.levels.flatten) ∧
      ((∀ l ∈ node.levels, ∀ m ∈ node.levels, l.length = m.length) →
        (node.levels.reverse.flatten = node.levels.flatten ↔
          node.levels.reverse = node.levels)) := by
  refine ⟨describe_eq node, declare_eq indent node h hname, fun hone => ?_, flatten_reverse_eq_iff⟩
  match hlevels : node.levels, hone with
  | [], _ => rfl
  | [level], _ => simp

/-- Two rows of three numbers. -/
def table : TypeNode := .array (.array (.primitive ⟨"int", none, none⟩) [.int 3]) [.int 2]

/-- A grid of two by three numbers is reported and declared alike. -/
theorem describe_declare_grid :
    (TypeNode.array (.primitive ⟨"int", none, none⟩) [.int 2, .int 3]).describe = "int[2][3]" ∧
      (TypeNode.array (.primitive ⟨"int", none, none⟩) [.int 2, .int 3]).declare "" "m" =
        "int m[2][3]" := by
  have hname : Text.KeepsEnd "m" := Text.keepsEnd_of_any (by decide) (by decide)
  have hnamed : (TypeNode.array (.primitive ⟨"int", none, none⟩) [.int 2, .int 3]).core.IsNamed :=
    ⟨by decide, by decide⟩
  obtain ⟨hdescribe, hdeclare, hsame, -⟩ := describe_declare hnamed "" hname
  rw [hsame (by decide)] at hdescribe
  exact ⟨hdescribe.trans (by decide), hdeclare.trans (by decide +kernel)⟩

/-- **Two rows of three numbers are reported with their dimensions the wrong way around.** -/
theorem describe_ne_declare_table :
    table.describe = "int[3][2]" ∧ table.declare "" "m" = "int m[2][3]" ∧
      table.levels.reverse.flatten ≠ table.levels.flatten := by
  decide

end TypeNode

end RecordLayout
