import RecordLayout.Number.Alignment
import RecordLayout.Profile.BuiltIn
import RecordLayout.Text.Numeral

/-!
# Reading profiles

A profile is written as the changes it makes to a built-in one.  The kinds of the options are
checked in a fixed order, and the values that need more than a kind are checked last.

## Main definitions

* `Profile.ofJson` reads a profile;
* `Profile.Draft` is a profile whose choices have not been checked yet, and
  `Profile.Draft.check` checks them.
-/

namespace RecordLayout.Profile

/-- The options of a profile. -/
def optionNames : List String :=
  ["name", "pointer_width_bytes", "primitive_sizes", "primitive_alignment_table",
   "bitfield_unit_reuse_across_base_types", "bitfield_fill_direction", "bitfield_packing",
   "aligned_overrides_pack", "aligned_with_packed_is_error", "base"]

/-- A profile in which the fill direction and the packing are still names. -/
structure Draft where
  profile : Profile
  fill : String
  packing : String

/-- A refusal. -/
def refuse {α : Type} (e : ProfileError) : Except Failure α := .error (.profile e)

/-- The first entry of an alignment table whose alignment is no power of two. -/
def badAlignment? (table : SortedTable Int Int) : Option (Int × Int) :=
  table.find? fun e => !Number.isPowerOfTwo e.2

/-- The widths that pointers may have. -/
def pointerWidths : List Int := [2, 4, 8, 16]

/-- The profile of a draft whose pointer width, names and alignments are all possible. -/
def Draft.check (d : Draft) : Except Failure Profile :=
  let p := d.profile
  if !(pointerWidths.contains p.pointerWidth) then refuse (.pointerWidth p.name p.pointerWidth)
  else
    match FillDirection.ofLabel? d.fill with
    | none => refuse (.optionChoice p.name "bitfield_fill_direction" ["high-to-low", "low-to-high"])
    | some fill =>
      match Packing.ofLabel? d.packing with
      | none => refuse (.optionChoice p.name "bitfield_packing" ["bits", "unit"])
      | some packing =>
        match badAlignment? p.alignmentTable with
        | some (size, alignment) => refuse (.alignmentNotPowerOfTwo p.name alignment size)
        | none => .ok { p with fill, packing }

/-- The value of an option that may be absent; one of the wrong kind is refused. -/
def option {α : Type} (fields : Json.Fields) (key kind : String) (view : Json → Option α) :
    Except Failure (Option α) :=
  match fields.get? key with
  | none => .ok none
  | some v =>
    match view v with
    | some a => .ok (some a)
    | none => refuse (.optionKind key kind)

/-- The size table after one written size, which must be a positive integer. -/
def putSize (table : SortedTable String Int) (entry : String × Json) :
    Except Failure (SortedTable String Int) :=
  match entry.2 with
  | .int n =>
    if n ≤ 0 then refuse (.size entry.1)
    else .ok (SortedTable.put (TypeName.normalize entry.1) n table)
  | _ => refuse (.size entry.1)

/-- The alignment table after one written entry: an integer by a key that reads as an integer. -/
def putAlignment (table : SortedTable Int Int) (entry : String × Json) :
    Except Failure (SortedTable Int Int) :=
  match Text.integer? entry.1 with
  | none => refuse (.tableKey entry.1)
  | some size =>
    match entry.2 with
    | .int n => .ok (SortedTable.put size n table)
    | _ => refuse (.tableAlignment entry.1)

/-- A table with the entries of an optional object written into it. -/
def putEntries {α : Type} (fields : Json.Fields) (key : String) (otherwise : ProfileError)
    (put : α → String × Json → Except Failure α) (table : α) : Except Failure α :=
  match fields.get? key with
  | none => .ok table
  | some (.object entries) => entries.foldlM put table
  | some _ => refuse otherwise

/-- The built-in profile that the changes are made to.  A value that is no text names none. -/
def baseOf (fields : Json.Fields) : Except Failure Profile :=
  match fields.get? "base" with
  | none => .ok lp64
  | some v => if v.isComposite then .error .compositeKey else named v.plain

/-- The profile that the options describe, before the last check. -/
def draftOf (defaultName : String) (fields : Json.Fields) : Except Failure Draft := do
  let base ← baseOf fields
  let name := ((fields.get? "name").map Json.plain).getD defaultName
  let width ← option fields "pointer_width_bytes" "int" Json.asInt?
  let reuse ← option fields "bitfield_unit_reuse_across_base_types" "bool" Json.asBool?
  let fill ← option fields "bitfield_fill_direction" "str" Json.asText?
  let packing ← option fields "bitfield_packing" "str" Json.asText?
  let overrides ← option fields "aligned_overrides_pack" "bool" Json.asBool?
  let conflict ← option fields "aligned_with_packed_is_error" "bool" Json.asBool?
  let sizes :=
    match width with
    | some w => putAll pointerSizedNames w base.primitiveSizes
    | none => base.primitiveSizes
  let sizes ← putEntries fields "primitive_sizes" .sizesNotAnObject putSize sizes
  let table ←
    putEntries fields "primitive_alignment_table" .tableNotAnObject putAlignment base.alignmentTable
  return {
    profile :=
      { base with
        name
        pointerWidth := width.getD base.pointerWidth
        primitiveSizes := sizes
        alignmentTable := table
        unitReuse := reuse.getD base.unitReuse
        alignedOverridesPack := overrides.getD base.alignedOverridesPack
        alignedWithPackedIsError := conflict.getD base.alignedWithPackedIsError }
    fill := fill.getD base.fill.label
    packing := packing.getD base.packing.label }

/-- The profile that a value describes; `defaultName` is its name unless it has one. -/
def ofJson (defaultName : String) (v : Json) : Except Failure Profile :=
  match v with
  | .object fields =>
    match Json.Fields.unknown optionNames fields with
    | [] => draftOf defaultName fields >>= Draft.check
    | unknown => refuse (.unknownOptions unknown)
  | _ => refuse .notAnObject

end RecordLayout.Profile
