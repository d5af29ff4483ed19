import RecordLayout.Layout.Extent

/-!
# Layouts

What a computed layout holds: the size and alignment of a type and, for an aggregate, the place of
each member.  The fields of an unnamed aggregate member appear again in the list of the aggregate
around it; there they are marked as promoted.

## Main definitions

* `LayoutResult` and `MemberLayout` are the results;
* `LayoutResult.paddingBytes` counts the bytes that no member uses;
* `LayoutResult.member?` finds a member by its key;
* `MemberLayout.translated` moves a field into the scope around it.
-/

namespace RecordLayout

/-- The bits of a bitfield, counted from the low bit of the storage it is reported against. -/
structure BitRange where
  offset : Int
  width : Int
  deriving DecidableEq, Repr, Inhabited

/-- What a layout is the layout of. -/
inductive ResultKind where
  | aggregate (kind : AggregateKind)
  | array
  | scalar
  deriving DecidableEq, Repr, Inhabited

/-- The name of a kind of layout. -/
def ResultKind.label : ResultKind → String
  | .aggregate kind => kind.keyword
  | .array => "array"
  | .scalar => "scalar"

mutual
/-- The place of a member.  The key is its name, or a stand-in for an unnamed one. -/
structure MemberLayout where
  key : String
  name : Option String
  type : TypeNode
  byteOffset : Int
  size : Int
  alignment : Int
  bits : Option BitRange
  paddingBefore : Int
  promoted : Bool
  layout : Option LayoutResult
  /-- Whether the size was written as a flag, and is still shown as one. -/
  sizeIsFlag : Bool := false

/-- The layout of a type. -/
structure LayoutResult where
  kind : ResultKind
  name : Option String
  size : Int
  alignment : Int
  members : List MemberLayout
  tailPadding : Int
  /-- Whether the size was written as a flag, and is still shown as one. -/
  sizeIsFlag : Bool := false
end

instance : Inhabited LayoutResult := ⟨⟨.scalar, none, 0, 1, [], 0, false⟩⟩

instance : Inhabited MemberLayout :=
  ⟨⟨"", none, default, 0, 0, 1, none, 0, false, none, false⟩⟩

namespace MemberLayout

/-- A field in the scope around its own, which starts `base` bytes before it. -/
def translated (base : Int) (m : MemberLayout) : MemberLayout :=
  { m with byteOffset := m.byteOffset + base, paddingBefore := 0, promoted := true }

/-- Whether a member is a bitfield. -/
def isBitfield (m : MemberLayout) : Bool := m.bits.isSome

/-- The first byte after a member. -/
def endOffset (m : MemberLayout) : Int := m.byteOffset + m.size

/-- The size as it is shown. -/
def shownSize (m : MemberLayout) : Quantity := .shown m.size m.sizeIsFlag

end MemberLayout

namespace LayoutResult

/-- The layout of a type that has no members. -/
def ofExtent (kind : ResultKind) (name : String) (x : Extent) : LayoutResult where
  kind
  name := some name
  size := x.size
  alignment := x.alignment
  members := []
  tailPadding := 0
  sizeIsFlag := x.sizeIsFlag

/-- The size as it is shown. -/
def shownSize (r : LayoutResult) : Quantity := .shown r.size r.sizeIsFlag

/-- The extent of a type with this layout. -/
def extent (r : LayoutResult) : Extent := ⟨r.size, r.alignment, r.sizeIsFlag⟩

/-- The members that were declared in the aggregate itself. -/
def direct (r : LayoutResult) : List MemberLayout := r.members.filter fun m => !m.promoted

/-- The bytes of padding, before the members and at the end. -/
def paddingBytes (r : LayoutResult) : Int :=
  (r.direct.map (·.paddingBefore)).foldr (· + ·) 0 + r.tailPadding

/-- The first member of a key. -/
def member? (r : LayoutResult) (key : String) : Option MemberLayout :=
  r.members.find? fun m => m.key == key

/-- The byte offset of each key, in the order in which the keys first appear; of members with the
same key the last one counts. -/
def offsets (r : LayoutResult) : List (String × Int) :=
  r.members.foldl (fun table m => put m.key m.byteOffset table) []
where
  /-- Writes the offset of a key, in the place that the key has already. -/
  put (key : String) (offset : Int) : List (String × Int) → List (String × Int)
    | [] => [(key, offset)]
    | (k, n) :: table => if k = key then (k, offset) :: table else (k, n) :: put key offset table

end LayoutResult

end RecordLayout
