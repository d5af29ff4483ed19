import RecordLayout.Quantity
import RecordLayout.Text.Numeral

/-!
# Why a layout fails

Each cause of a failed layout, with the kind it belongs to and its wording, and the path of member
names that leads to the member at fault.

## Main definitions

* `LayoutError.Kind` is the classification that users see;
* `LayoutError.Cause` has one constructor for each cause;
* `LayoutError` adds the path, and `LayoutError.push` extends it at the outer end;
* `LayoutError.text` is the full wording.
-/

namespace RecordLayout

namespace LayoutError

/-- The classification of causes. -/
inductive Kind where
  | layoutError
  | invalidAttribute
  | bitfieldTooWide
  | trailingMemberAfterFlexibleArray
  | flexibleArrayInUnion
  | unsupportedConstruct
  | duplicateMember
  deriving DecidableEq, Repr, Inhabited

/-- The name of a kind. -/
def Kind.label : Kind → String
  | .layoutError => "LayoutError"
  | .invalidAttribute => "InvalidAttribute"
  | .bitfieldTooWide => "BitfieldTooWide"
  | .trailingMemberAfterFlexibleArray => "TrailingMemberAfterFlexibleArray"
  | .flexibleArrayInUnion => "FlexibleArrayInUnion"
  | .unsupportedConstruct => "UnsupportedConstruct"
  | .duplicateMember => "DuplicateMember"

/-- All kinds, each once. -/
def Kind.all : List Kind :=
  [.layoutError, .invalidAttribute, .bitfieldTooWide, .trailingMemberAfterFlexibleArray,
   .flexibleArrayInUnion, .unsupportedConstruct, .duplicateMember]

/-- Why a layout fails. -/
inductive Cause where
  /-- A pack that is no power of two. -/
  | packNotPowerOfTwo (pack : Json)
  /-- A requested alignment that is no power of two, on the thing described. -/
  | alignedNotPowerOfTwo (requested : Int) (what : String)
  /-- A requested alignment on a packed member, under a profile that forbids it. -/
  | alignedOnPacked (requested : Int) (profile : String)
  /-- A primitive with an alignment of its own that is no power of two. -/
  | primitiveAlignment (name : String) (alignment : Quantity)
  /-- A primitive whose size neither it nor the profile gives. -/
  | sizeUnknown (name : String) (profile : String)
  /-- A primitive with a size that is not positive. -/
  | primitiveSize (name : String) (size : Quantity)
  | arrayWithoutDimensions (element : String)
  | arrayDimension (dimension : Json)
  /-- An array whose elements exist only as members; `kind` names them. -/
  | arrayOf (kind : String)
  | flexibleArrayOf (kind : String)
  | incompleteType (name : String)
  | unknownNode (kind : String)
  /-- A node on its own that exists only as a member. -/
  | memberOnly (kind : String)
  | bitfieldWidth (width : Json)
  | widthExceeds (width capacity : Int) (base : String)
  | afterFlexibleArray (name : String)
  | flexibleArrayInUnion
  | unnamedFlexibleArray
  | alignedBitfield
  /-- An unnamed member that is no aggregate, so that nothing could be promoted. -/
  | unnamedMember
  | duplicateMember (name first second : String)
  /-- A type that reaches itself through the types in the chain. -/
  | containsItself (chain : List String)
  /-- A recorded array in which only the first dimension might be open. -/
  | variableInnerDimension (offset : Nat)
  /-- A recorded type that contains itself. -/
  | recordedCycle (name : Option String)
  /-- A recorded bitfield whose base is no scalar. -/
  | bitfieldBase (name : Option String)
  /-- A cause that is given by its kind and wording. -/
  | stated (kind : Kind) (message : String)
  deriving Repr, Inhabited

/-- The kind that a cause belongs to. -/
def Cause.kind : Cause → Kind
  | .packNotPowerOfTwo .. | .alignedNotPowerOfTwo .. | .alignedOnPacked ..
  | .primitiveAlignment .. => .invalidAttribute
  | .widthExceeds .. => .bitfieldTooWide
  | .afterFlexibleArray .. => .trailingMemberAfterFlexibleArray
  | .flexibleArrayInUnion => .flexibleArrayInUnion
  | .duplicateMember .. => .duplicateMember
  | .stated kind _ => kind
  | _ => .unsupportedConstruct

/-- The wording of a cause. -/
def Cause.message : Cause → String
  | .packNotPowerOfTwo pack => "pack(" ++ pack.plain ++ ") is not a power of two"
  | .alignedNotPowerOfTwo requested what => s!"aligned({requested}) on {what} is not a power of two"
  | .alignedOnPacked requested profile =>
    s!"aligned({requested}) conflicts with packed under ABI profile {profile}"
  | .primitiveAlignment name alignment =>
    s!"primitive '{name}' alignment {alignment.text} is not a power of two"
  | .sizeUnknown name profile => s!"primitive '{name}' has no size in ABI profile {profile}"
  | .primitiveSize name size => s!"primitive '{name}' has non-positive size {size.text}"
  | .arrayWithoutDimensions element => s!"array of {element} has no dimensions"
  | .arrayDimension dimension =>
    "array dimension " ++ dimension.quoted ++ " is not a positive constant"
  | .arrayOf kind => s!"array of {kind} elements"
  | .flexibleArrayOf kind => s!"flexible array of {kind} elements"
  | .incompleteType name => s!"incomplete type '{name}'"
  | .unknownNode kind => s!"unsupported type node {kind}"
  | .memberOnly kind => s!"{kind} can only appear as a struct member"
  | .bitfieldWidth width => "bitfield width " ++ width.quoted ++ " is not a non-negative constant"
  | .widthExceeds width capacity base => s!"width {width} exceeds the {capacity} bits of '{base}'"
  | .afterFlexibleArray name => s!"member declared after flexible array member '{name}'"
  | .flexibleArrayInUnion => "flexible array members are not allowed in a union"
  | .unnamedFlexibleArray => "flexible array member without a name"
  | .alignedBitfield => "aligned attribute on a bitfield"
  | .unnamedMember => "unnamed member must be a struct or union"
  | .duplicateMember name first second => s!"'{name}' is declared at {first} and {second}"
  | .containsItself chain =>
    "type contains itself by value (" ++ String.intercalate " -> " chain ++ ")"
  | .variableInnerDimension offset =>
    "array at 0x" ++ Text.hexadecimal offset ++ " has a variable inner dimension"
  | .recordedCycle name => "'" ++ name.getD "None" ++ "' contains itself by value"
  | .bitfieldBase name => "bitfield '" ++ name.getD "None" ++ "' has a non-scalar base type"
  | .stated _ message => message

end LayoutError

/-- A failed layout: the cause, and the member names that lead to it, outermost first. -/
structure LayoutError where
  cause : LayoutError.Cause
  path : List String
  deriving Repr, Inhabited

namespace LayoutError

/-- The kind of the cause. -/
def kind (e : LayoutError) : Kind := e.cause.kind

/-- The wording of the cause. -/
def message (e : LayoutError) : String := e.cause.message

/-- The path with one more name at the outer end; an empty name adds nothing. -/
def push (name : String) (e : LayoutError) : LayoutError :=
  if name = "" then e else { e with path := name :: e.path }

/-- The path as text. -/
def pathText (e : LayoutError) : String := String.intercalate "." e.path

/-- The full wording: the kind, the path if there is one, and the cause. -/
def text (e : LayoutError) : String :=
  if e.path.isEmpty then e.kind.label ++ ": " ++ e.message
  else e.kind.label ++ " at " ++ e.pathText ++ ": " ++ e.message

@[simp] theorem push_empty (e : LayoutError) : e.push "" = e := rfl

@[simp] theorem cause_push (name : String) (e : LayoutError) : (e.push name).cause = e.cause := by
  unfold push; split <;> rfl

theorem path_push {name : String} (h : name ≠ "") (e : LayoutError) :
    (e.push name).path = name :: e.path := by
  simp [push, h]

end LayoutError

end RecordLayout
