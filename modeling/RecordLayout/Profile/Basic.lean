import RecordLayout.Json.Basic
import RecordLayout.TypeName

/-!
# ABI profiles

A profile holds what a layout depends on besides the type itself: the sizes of the primitives, the
alignment that goes with a size, and the rules for bitfields and attributes.

## Main definitions

* `Profile` is the record of these choices;
* `Profile.sizeOf?` is the size of a primitive by name;
* `Profile.alignmentFor` is the alignment of a primitive by size;
* `Profile.toJson` writes a profile out in full.
-/

namespace RecordLayout

/-- From which end of a storage unit bitfields are filled. -/
inductive FillDirection where
  | lowToHigh
  | highToLow
  deriving DecidableEq, Repr, Inhabited

/-- How bitfields are packed: into storage units of their base type, or at the running bit
position. -/
inductive Packing where
  | unit
  | bits
  deriving DecidableEq, Repr, Inhabited

/-- The name of a fill direction. -/
def FillDirection.label : FillDirection → String
  | .lowToHigh => "low-to-high"
  | .highToLow => "high-to-low"

/-- The name of a packing. -/
def Packing.label : Packing → String
  | .unit => "unit"
  | .bits => "bits"

/-- The fill direction of a name. -/
def FillDirection.ofLabel? (s : String) : Option FillDirection :=
  if s = "low-to-high" then some .lowToHigh
  else if s = "high-to-low" then some .highToLow
  else none

/-- The packing of a name. -/
def Packing.ofLabel? (s : String) : Option Packing :=
  if s = "unit" then some .unit else if s = "bits" then some .bits else none

@[simp] theorem FillDirection.ofLabel?_label (d : FillDirection) : ofLabel? d.label = some d := by
  cases d <;> rfl

@[simp] theorem Packing.ofLabel?_label (p : Packing) : ofLabel? p.label = some p := by
  cases p <;> rfl

/-- Tables with ascending keys. -/
abbrev SortedTable (α β : Type) := List (α × β)

namespace SortedTable

variable {α β : Type} [LT α] [DecidableLT α] [DecidableEq α]

/-- The table after writing an entry; an entry with the same key is replaced. -/
def put (key : α) (value : β) : SortedTable α β → SortedTable α β
  | [] => [(key, value)]
  | (k, v) :: table =>
    if key < k then (key, value) :: (k, v) :: table
    else if key = k then (key, value) :: table
    else (k, v) :: put key value table

/-- The value of a key. -/
def get? (key : α) : SortedTable α β → Option β
  | [] => none
  | (k, v) :: table => if k = key then some v else get? key table

end SortedTable

/-- The choices that a layout depends on. -/
structure Profile where
  name : String
  pointerWidth : Int
  /-- The sizes of the primitives, by normal spelling. -/
  primitiveSizes : SortedTable String Int
  /-- The alignment for each size class. -/
  alignmentTable : SortedTable Int Int
  /-- Whether bitfields of different base types may share a storage unit. -/
  unitReuse : Bool
  fill : FillDirection
  packing : Packing
  /-- Whether a requested alignment raises a member above the pack of its aggregate. -/
  alignedOverridesPack : Bool
  /-- Whether a requested alignment on a packed member is an error. -/
  alignedWithPackedIsError : Bool
  deriving DecidableEq, Repr, Inhabited

namespace Profile

/-- The names, besides those with a star at the end, that stand for a pointer. -/
def pointerNames : List String := ["pointer", "void*", "void *"]

/-- The size of a primitive, by any spelling of its name. -/
def sizeOf? (p : Profile) (spelling : String) : Option Int :=
  let name := TypeName.normalize spelling
  if pointerNames.contains name || TypeName.isPointer name then some p.pointerWidth
  else p.primitiveSizes.get? name

/-- The alignment for a size in a table with ascending size classes: that of the size itself, else
that of the greatest smaller size class, else `best`. -/
def alignmentIn (size best : Int) : SortedTable Int Int → Int
  | [] => best
  | (sizeClass, alignment) :: table =>
    if sizeClass = size then alignment
    else if sizeClass < size then alignmentIn size alignment table
    else alignmentIn size best table

/-- The alignment of a primitive of a size; below all size classes it is one. -/
def alignmentFor (p : Profile) (size : Int) : Int :=
  alignmentIn size 1 p.alignmentTable

/-- A profile written out in full. -/
def toJson (p : Profile) : Json :=
  .object
    [("name", .text p.name),
     ("pointer_width_bytes", .int p.pointerWidth),
     ("primitive_sizes", .object (p.primitiveSizes.map fun e => (e.1, .int e.2))),
     ("primitive_alignment_table",
       .object (p.alignmentTable.map fun e => (toString e.1, .int e.2))),
     ("bitfield_unit_reuse_across_base_types", .bool p.unitReuse),
     ("bitfield_fill_direction", .text p.fill.label),
     ("bitfield_packing", .text p.packing.label),
     ("aligned_overrides_pack", .bool p.alignedOverridesPack),
     ("aligned_with_packed_is_error", .bool p.alignedWithPackedIsError)]

end Profile

end RecordLayout
