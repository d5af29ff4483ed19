import RecordLayout.Dwarf.Builder
import RecordLayout.Dwarf.Expression

/-!
# Recorded placements

Where the compiler placed the members of an aggregate, with the fields of unnamed members promoted
into the scope around them.

## Main definitions

* `Dwarf.RecordedMember` is the recorded place of a member;
* `Dwarf.memberOffset` and `Dwarf.bitPosition?` read a place from an entry;
* `Dwarf.expectedMembers` lists the members of an aggregate;
* `Dwarf.buildType` joins them with the type that is built.
-/

namespace RecordLayout.Dwarf

/-- The recorded place of a member. -/
structure RecordedMember where
  name : String
  byteOffset : Option Int
  /-- The first bit in the order of declaration, for a bitfield whose place is known. -/
  bitOffset : Option Int
  bitSize : Option Quantity
  deriving DecidableEq, Repr, Inhabited

/-- The recorded byte offset of a member in its parent, if it is known.  The members of a union
start where it does. -/
def memberOffset (info : Info) (d : Die) (parentTag : Label) : Except Failure (Option Int) :=
  match d.attribute? "DW_AT_data_member_location" with
  | none => .ok (if parentTag = unionTag then some 0 else none)
  | some v =>
    match v.asInt?, v.program? with
    | some n, _ => .ok (some n)
    | none, none => .ok none
    | none, some program =>
      (program >>= constantOffset info.addressSize).mapError Failure.expression

/-- The size of the storage that an old style bit offset counts in: its own, or that of the base
type. -/
def storageSize? (info : Info) (d : Die) : Option Int :=
  match d.attributeInt? "DW_AT_byte_size" with
  | some n => some n
  | none =>
    (info.behindAliases (info.typeOf? d)).bind fun base => base.attributeInt? "DW_AT_byte_size"

/-- The position of the first bit of a bitfield in its parent, in the order of declaration.  An old
style bit offset counts from the high end of the storage. -/
def bitPosition? (info : Info) (d : Die) (byteOffset : Option Int) : Option Int :=
  match d.attributeInt? "DW_AT_data_bit_offset" with
  | some n => some n
  | none => do
    let bitOffset ← d.attributeInt? "DW_AT_bit_offset"
    let bitSize ← d.attributeInt? "DW_AT_bit_size"
    let byteOffset ← byteOffset
    -- With the high octet first, the high end of the storage is where the bits begin.
    if info.order = .big then return byteOffset * 8 + bitOffset
    let storage ← storageSize? info d
    return byteOffset * 8 + storage * 8 - bitOffset - bitSize

/-- The recorded place of a named member of an aggregate that starts at `base`. -/
def recordedMember (info : Info) (d : Die) (name : String) (offset : Option Int) (base : Int) :
    RecordedMember :=
  let bitSize := d.attributeQuantity? "DW_AT_bit_size"
  { name
    byteOffset := offset.map (base + ·)
    bitOffset :=
      match bitSize with
      | none => none
      | some _ => (bitPosition? info d offset).map (· + base * 8)
    bitSize }

/-- The members of an aggregate that starts at `base`, nested unnamed ones at most `depth` deep. -/
def expectedMembersTo (info : Info) : Nat → Die → Int → Except Failure (List RecordedMember)
  | 0, _, _ => .error .endlessReference
  | depth + 1, d, base => do
    let lists ← (d.children.filter Die.isMember).mapM fun c => do
      let offset ← memberOffset info c d.tag
      match c.name? with
      | some name => return [recordedMember info c name offset base]
      | none =>
        match (info.behindAliases (info.typeOf? c)).filter Die.isAggregate, offset with
        | some inner, some offset =>
          expectedMembersTo info depth (info.canonical inner) (base + offset)
        -- Without a known offset the fields of an unnamed member have no place to compare.
        | _, _ => return []
    return lists.flatten

/-- The members of an aggregate. -/
def expectedMembers (info : Info) (d : Die) : Except Failure (List RecordedMember) :=
  expectedMembersTo info (depthBound info) d 0

/-- A recorded type: its tree, its size and the places of its members. -/
structure RecordedType where
  name : String
  node : TypeNode
  size : Option Quantity
  members : List RecordedMember

/-- The recorded type of a name. -/
def buildType (info : Info) (typeName : String) : BuildM RecordedType := do
  let root ← check (info.findRoot typeName)
  let d := info.canonical root
  let node ← build info (some d)
  let members ← check (expectedMembers info d)
  return { name := typeName, node, size := d.attributeQuantity? "DW_AT_byte_size", members }

end RecordLayout.Dwarf
