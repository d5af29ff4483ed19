import RecordLayout.Label
import RecordLayout.Quantity

/-!
# Type trees

The types whose layout is computed: a primitive, a struct or union with its members, an array, an
open-ended array, a bitfield, a type that is only declared, and a node of a kind that this library
does not know.

Constants that come from outside (the dimensions of an array, the width of a bitfield, the pack of
an aggregate) are kept as they were written, so that a layout can refuse them by name.

## Main definitions

* `TypeNode`, `Aggregate` and `Member` are the trees;
* `Attributes` is the set of attributes of a member or an aggregate;
* `Origin` is the place where an aggregate was written, which tells equal aggregates apart;
* `TypeNode.describe` is the short name of a type in reports.
-/

namespace RecordLayout

/-- A scalar type.  A missing size or alignment is looked up in the profile. -/
structure Primitive where
  name : String
  size : Option Quantity
  alignment : Option Quantity
  deriving DecidableEq, Repr, Inhabited

/-- A set of attributes: whether `packed` is among them, and the requested alignments, ascending
and without repetition. -/
structure Attributes where
  packed : Bool
  aligned : List Int
  deriving DecidableEq, Repr, Inhabited

namespace Attributes

/-- No attributes. -/
def none : Attributes := ⟨false, []⟩

/-- An alignment in its place among ascending ones. -/
def insertAligned (n : Int) : List Int → List Int
  | [] => [n]
  | m :: ms => if n < m then n :: m :: ms else if n = m then m :: ms else m :: insertAligned n ms

/-- The set with `packed` added. -/
def withPacked (a : Attributes) : Attributes := { a with packed := true }

/-- The set with a requested alignment added. -/
def withAligned (a : Attributes) (n : Int) : Attributes :=
  { a with aligned := insertAligned n a.aligned }

/-- The alignment that counts: the greatest one requested. -/
def requested? (a : Attributes) : Option Int := a.aligned.max?

end Attributes

/-- Whether the members of an aggregate follow one another or share their place. -/
inductive AggregateKind where
  | struct
  | union
  deriving DecidableEq, Repr, Inhabited

/-- The keyword of a kind of aggregate. -/
def AggregateKind.keyword : AggregateKind → String
  | .struct => "struct"
  | .union => "union"

/-- The place where an aggregate was written.  Two aggregates of one source are the same one exactly
when they have the same origin. -/
inductive Origin where
  /-- Written in a document, at the place with these segments. -/
  | written (segments : List String)
  /-- Recorded in debugging information, in the entry at this offset. -/
  | recorded (offset : Nat)
  deriving DecidableEq, Repr, Inhabited

mutual
/-- A type. -/
inductive TypeNode where
  | primitive (p : Primitive)
  | aggregate (a : Aggregate)
  | array (element : TypeNode) (dimensions : List Json)
  | flexibleArray (element : TypeNode)
  | bitfield (base : Primitive) (width : Json)
  /-- A type that is only declared, or recorded as a kind of thing that has no layout. -/
  | incomplete (label : Label)
  /-- A node of an unknown kind, with the name of that kind. -/
  | unknown (kind : String)

/-- A struct or a union. -/
structure Aggregate where
  kind : AggregateKind
  members : List Member
  name : Option String
  pack : Option Json
  attributes : Attributes
  origin : Origin

/-- A member of an aggregate; an unnamed one has no name. -/
structure Member where
  type : TypeNode
  name : Option String
  attributes : Attributes
end

instance : Inhabited TypeNode := ⟨.incomplete (.name "void")⟩
instance : Inhabited Aggregate := ⟨⟨.struct, [], none, none, .none, .written []⟩⟩
instance : Inhabited Member := ⟨⟨default, none, .none⟩⟩

/-- A member that has no name. -/
def Member.isAnonymous (m : Member) : Bool := m.name.isNone

/-- A name that is there and not empty. -/
def nonemptyName? (name : Option String) : Option String := name.filter (· ≠ "")

namespace TypeNode

/-- Dimensions in brackets, as they were written. -/
def brackets (dimensions : List Json) : String :=
  String.join (dimensions.map fun d => "[" ++ d.plain ++ "]")

/-- The short name of a type in reports. -/
def describe : TypeNode → String
  | .primitive p => p.name
  | .aggregate a =>
    match nonemptyName? a.name with
    | some name => a.kind.keyword ++ " " ++ name
    | none => a.kind.keyword ++ " \x7b...\x7d"
  | .array e dims => e.describe ++ brackets dims
  | .flexibleArray e => e.describe ++ "[]"
  | .bitfield base width => base.name ++ " : " ++ width.plain
  | .incomplete label => label.text
  | .unknown kind => kind

/-- Open-ended arrays and bitfields exist only as members of an aggregate; the name is the one that
messages use. -/
def memberOnly? : TypeNode → Option String
  | .flexibleArray _ => some "FlexibleArray"
  | .bitfield _ _ => some "Bitfield"
  | _ => none

/-- The aggregate that a node is. -/
def asAggregate? : TypeNode → Option Aggregate
  | .aggregate a => some a
  | _ => none

end TypeNode

/-- The full form of a primitive in a message. -/
def Primitive.spelled (p : Primitive) : String :=
  let size := (p.size.map Quantity.text).getD "None"
  let alignment := (p.alignment.map Quantity.text).getD "None"
  "Primitive(name=" ++ Text.quoted p.name ++ ", size=" ++ size ++ ", alignment=" ++ alignment ++ ")"

/-- The spelling of an optional text in a message. -/
def spellName (name : Option String) : String := (name.map Text.quoted).getD "None"

/-- A fixed sequence in a message; a single item is followed by a comma. -/
def spellTuple : List String → String
  | [item] => "(" ++ item ++ ",)"
  | items => "(" ++ String.intercalate ", " items ++ ")"

/-- The full form of a set of attributes in a message. -/
def Attributes.spelled (a : Attributes) : String :=
  let items :=
    (if a.packed then ["Packed()"] else []) ++ a.aligned.map fun n => s!"Aligned(value={n})"
  if items.isEmpty then "frozenset()"
  else "frozenset(\x7b" ++ String.intercalate ", " items ++ "\x7d)"

/-- The name of a kind of aggregate in the full form of a type. -/
def AggregateKind.spelled : AggregateKind → String
  | .struct => "Struct"
  | .union => "Union"

mutual
/-- The full form of a type in a message: its kind and all that it holds. -/
def TypeNode.spelled : TypeNode → String
  | .primitive p => p.spelled
  | .aggregate a => a.spelled
  | .array e dims =>
    "Array(element=" ++ e.spelled ++ ", dimensions=" ++ spellTuple (dims.map Json.quoted) ++ ")"
  | .flexibleArray e => "FlexibleArray(element=" ++ e.spelled ++ ")"
  | .bitfield base width => "Bitfield(base=" ++ base.spelled ++ ", width=" ++ width.quoted ++ ")"
  | .incomplete label => "Opaque(name=" ++ label.quoted ++ ")"
  | .unknown kind => kind ++ "()"

/-- The full form of an aggregate in a message. -/
def Aggregate.spelled : Aggregate → String
  | ⟨kind, members, name, pack, attributes, _⟩ =>
    kind.spelled ++ "(members=" ++ spellTuple (spelledMembers members) ++ ", name="
      ++ spellName name ++ ", pack=" ++ (pack.map Json.quoted).getD "None" ++ ", attributes="
      ++ attributes.spelled ++ ")"

/-- The full forms of members in a message. -/
def spelledMembers : List Member → List String
  | [] => []
  | x :: xs => x.spelled :: spelledMembers xs

/-- The full form of a member in a message. -/
def Member.spelled : Member → String
  | ⟨type, name, attributes⟩ =>
    "Member(type=" ++ type.spelled ++ ", name=" ++ spellName name ++ ", attributes="
      ++ attributes.spelled ++ ")"
end

end RecordLayout
