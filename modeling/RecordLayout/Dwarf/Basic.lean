import RecordLayout.Label
import RecordLayout.Octets
import RecordLayout.Quantity
import RecordLayout.Text.Utf8

/-!
# Debugging information

The entries that a compiler records about types, as a forest.  Every entry has a tag, an offset that
identifies it, attributes and children; an entry may refer to the entry of its type.

## Main definitions

* `Dwarf.Value` is the value of an attribute, and `Dwarf.Die` an entry;
* `Dwarf.Info` is the information of one binary, `Dwarf.Info.dies` its entries in file order, and
  `Dwarf.Info.ofRoots` the information of a forest of entries;
* `Dwarf.Die.name?` is the name of an entry;
* `Dwarf.Info.canonical` is the entry that stands for all entries of one name and tag.
-/

namespace RecordLayout.Dwarf

/-- The value of an attribute. -/
inductive Value where
  | number (q : Quantity)
  /-- Octets, such as an encoded text. -/
  | bytes (bs : List UInt8)
  /-- The numbers of a block, such as an expression. -/
  | block (items : List Quantity)
  | text (s : String)
  deriving DecidableEq, Repr, Inhabited

namespace Value

/-- The value of a number. -/
def ofInt (n : Int) : Value := .number (.int n)

/-- The value of a block of octets. -/
def ofOctets (bs : List UInt8) : Value := .block (bs.map fun b => .int b.toNat)

/-- The number that a value is. -/
def asQuantity? : Value → Option Quantity
  | .number q => some q
  | _ => none

/-- The number that a value stands for; a flag counts as one or zero. -/
def asInt? (v : Value) : Option Int := v.asQuantity?.map Quantity.value

/-- Whether a value counts as true: zero and what is empty do not. -/
def isTrue : Value → Bool
  | .number q => q.value != 0
  | .bytes bs => !bs.isEmpty
  | .block items => !items.isEmpty
  | .text s => s != ""

/-- A value as a name. -/
def spelled : Value → String
  | .number q => q.text
  | .bytes bs => Text.Utf8.decodeLossy bs
  | .block items => (Json.array (items.map Quantity.constant)).quoted
  | .text s => s

end Value

/-- An entry.  `type` is the offset of the entry that it refers to as its type. -/
structure Die where
  tag : Label
  offset : Nat
  /-- The size of an address in the unit of the entry. -/
  addressSize : Int
  /-- Whether the entry is recorded as one that may have children. -/
  hasChildren : Bool
  attributes : List (String × Value)
  type : Option Nat
  children : List Die

instance : Inhabited Die := ⟨⟨default, 0, 8, false, [], none, []⟩⟩

/-! ## Tags -/

/-- The tag of a struct. -/
def structTag : Label := .name "DW_TAG_structure_type"

/-- The tag of a class, which is laid out as a struct. -/
def classTag : Label := .name "DW_TAG_class_type"

/-- The tag of a union. -/
def unionTag : Label := .name "DW_TAG_union_type"

/-- The tag of another name for a type. -/
def typedefTag : Label := .name "DW_TAG_typedef"

/-- The tag of a scalar type. -/
def baseTag : Label := .name "DW_TAG_base_type"

/-- The tag of an enumeration. -/
def enumerationTag : Label := .name "DW_TAG_enumeration_type"

/-- The tag of an array. -/
def arrayTag : Label := .name "DW_TAG_array_type"

/-- The tag of a dimension of an array. -/
def dimensionTag : Label := .name "DW_TAG_subrange_type"

/-- The tag of a member. -/
def memberTag : Label := .name "DW_TAG_member"

/-- The tag of a base class. -/
def baseClassTag : Label := .name "DW_TAG_inheritance"

/-- The tags of pointers and references. -/
def pointerTags : List Label :=
  [.name "DW_TAG_pointer_type", .name "DW_TAG_reference_type",
   .name "DW_TAG_rvalue_reference_type", .name "DW_TAG_ptr_to_member_type"]

/-- The tags of qualifiers, which do not change the layout. -/
def qualifierTags : List Label :=
  [.name "DW_TAG_const_type", .name "DW_TAG_volatile_type", .name "DW_TAG_restrict_type",
   .name "DW_TAG_atomic_type"]

/-- Whether a tag is that of an aggregate. -/
def isAggregateTag (tag : Label) : Bool := [structTag, classTag, unionTag].contains tag

/-- Whether a tag is that of a pointer or a reference. -/
def isPointerTag (tag : Label) : Bool := pointerTags.contains tag

/-- Whether a tag is that of a qualifier. -/
def isQualifierTag (tag : Label) : Bool := qualifierTags.contains tag

/-- Whether an entry of a tag only stands for the type that it refers to. -/
def isAliasTag (tag : Label) : Bool := tag == typedefTag || isQualifierTag tag

/-- Whether entries of a tag are found by name. -/
def isIndexedTag (tag : Label) : Bool := isAggregateTag tag || tag == typedefTag

/-! ## Entries -/

namespace Die

/-- The value of an attribute. -/
def attribute? (d : Die) (name : String) : Option Value :=
  (d.attributes.find? fun a => a.1 == name).map (·.2)

/-- The number that an attribute is, as it was written. -/
def attributeQuantity? (d : Die) (name : String) : Option Quantity :=
  (d.attribute? name).bind Value.asQuantity?

/-- The number that an attribute stands for. -/
def attributeInt? (d : Die) (name : String) : Option Int :=
  (d.attributeQuantity? name).map Quantity.value

/-- Whether an attribute is there and counts as true. -/
def attributeIsTrue (d : Die) (name : String) : Bool :=
  ((d.attribute? name).map Value.isTrue).getD false

/-- The name of an entry, unless it is empty. -/
def name? (d : Die) : Option String :=
  ((d.attribute? "DW_AT_name").map Value.spelled).filter (· ≠ "")

/-- Whether an entry only declares its type. -/
def isDeclaration (d : Die) : Bool := d.attributeIsTrue "DW_AT_declaration"

/-- Whether an entry is an aggregate. -/
def isAggregate (d : Die) : Bool := isAggregateTag d.tag

/-- Whether a child is a member that the source declares. -/
def isMember (d : Die) : Bool :=
  d.tag == memberTag && !((d.attributeInt? "DW_AT_artificial").any (· != 0))

mutual
/-- An entry and all entries below it, in file order. -/
def preorder : Die → List Die
  | ⟨tag, offset, addressSize, hasChildren, attributes, type, children⟩ =>
    ⟨tag, offset, addressSize, hasChildren, attributes, type, children⟩ :: preorderAll children

/-- Entries and all entries below them, in file order. -/
def preorderAll : List Die → List Die
  | [] => []
  | d :: ds => d.preorder ++ preorderAll ds
end

end Die

/-- The information of one binary. -/
structure Info where
  order : ByteOrder
  /-- The size of an address in expressions. -/
  addressSize : Nat
  /-- All entries in file order, those that are children of another one too. -/
  dies : List Die

namespace Info

/-- The information of a forest of entries: the roots and all entries below them. -/
def ofRoots (order : ByteOrder) (addressSize : Nat) (roots : List Die) : Info :=
  ⟨order, addressSize, Die.preorderAll roots⟩

/-- The entry at an offset. -/
def dieAt? (info : Info) (offset : Nat) : Option Die := info.dies.find? fun d => d.offset == offset

/-- The entry that an entry refers to as its type. -/
def typeOf? (info : Info) (d : Die) : Option Die := d.type.bind info.dieAt?

/-- How much an entry says about its type: a definition counts more than a recorded size, and that
more than children. -/
def score (d : Die) : Int :=
  (if d.isDeclaration then -5 else 5)
    + (if (d.attribute? "DW_AT_byte_size").isSome then 2 else 0)
    + (if d.hasChildren then 1 else 0)

/-- Whether an entry is found under a name and a tag. -/
def isNamed (name : String) (tag : Label) (d : Die) : Bool :=
  isIndexedTag d.tag && d.tag == tag && d.name? == some name

/-- The better one of the best entry so far and another. -/
def better (best : Option Die) (d : Die) : Option Die :=
  match best with
  | none => some d
  | some b => if score b < score d then some d else some b

/-- The best entry of a name and a tag: the first of those with the highest score. -/
def best? (info : Info) (name : String) (tag : Label) : Option Die :=
  (info.dies.filter (isNamed name tag)).foldl better none

/-- Whether any entry is found under a name. -/
def hasName (info : Info) (name : String) : Bool :=
  info.dies.any fun d => isIndexedTag d.tag && d.name? == some name

/-- The entry that stands for an aggregate: the best of its name and tag.  Other entries stand for
themselves. -/
def canonical (info : Info) (d : Die) : Die :=
  match d.name? with
  | none => d
  | some name => if d.isAggregate then (info.best? name d.tag).getD d else d

/-- The entry behind typedefs and qualifiers, following at most `steps` of them. -/
def stripAliases (info : Info) : Nat → Option Die → Option Die
  | _, none => none
  | 0, some d => if isAliasTag d.tag then none else some d
  | steps + 1, some d =>
    if isAliasTag d.tag then stripAliases info steps (info.typeOf? d) else some d

/-- The entry behind typedefs and qualifiers.  A chain without an end has nothing behind it. -/
def behindAliases (info : Info) (d : Option Die) : Option Die :=
  info.stripAliases info.dies.length d

end Info

end RecordLayout.Dwarf
