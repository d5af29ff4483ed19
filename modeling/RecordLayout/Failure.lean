import RecordLayout.Document.Error
import RecordLayout.Layout.Error
import RecordLayout.Profile.Error

/-!
# Failures

Everything that can go wrong short of the command line, in one type.

## Main definitions

* `RequestError` has the failures of a request that is well formed but cannot be met;
* `ContainerError` has the faults of containers;
* `ExpressionError` has the faults of recorded expressions;
* `Failure` joins all failures;
* `Failure.push` and `Failure.within` name the member that a failed layout passed through.
-/

namespace RecordLayout

/-- Why a request cannot be met. -/
inductive RequestError where
  | negativeLimit
  | typeNotRecorded (name : String)
  | notAnAggregate (name : String)
  | noDebugInformation
  | unknownContainer
  | unknownSlice (magic : Nat) (path : String)
  | architectureMissing (requested : String) (available : List String)
  | noSlices (path : String)
  | noInfoSection
  | notAMember (member type : String)
  deriving DecidableEq, Repr

/-- The wording of a refused request. -/
def RequestError.message : RequestError → String
  | .negativeLimit => "--limit must be >= 0"
  | .typeNotRecorded name => s!"Type '{name}' not found in DWARF."
  | .notAnAggregate name => s!"Type '{name}' is not a struct or union in DWARF."
  | .noDebugInformation => "ELF file does not contain DWARF information."
  | .unknownContainer => "Unsupported file format: expected ELF or Mach-O."
  | .unknownSlice magic path =>
    "Unknown Mach-O header: 0x" ++ Text.hexadecimalPadded 8 magic
      ++ " in <_io.BufferedReader name=" ++ Text.quoted path ++ ">"
  | .architectureMissing requested available =>
    "Requested arch '" ++ requested ++ "' not found. Available: "
      ++ String.intercalate ", " available ++ "."
  | .noSlices path => s!"No Mach-O headers found in {path}."
  | .noInfoSection => "Mach-O file does not contain a __debug_info section."
  | .notAMember member type => s!"'{member}' is not a member of {type}."

/-- Why a container cannot be read. -/
inductive ContainerError where
  /-- The octet that tells how wide addresses are is missing or has no meaning. -/
  | unknownWidth (octet : Option UInt8)
  /-- The octet that tells the byte order is missing or has no meaning. -/
  | unknownOrder (octet : Option UInt8)
  /-- A field of `needed` octets of the header where the container has only `found` left. -/
  | cutShort (needed found : Nat)
  | damaged
  deriving DecidableEq, Repr

/-- The wording of a fault in a container. -/
def ContainerError.message : ContainerError → String
  | .unknownWidth octet => "Invalid EI_CLASS " ++ Text.quotedOctets octet.toList
  | .unknownOrder octet => "Invalid EI_DATA " ++ Text.quotedOctets octet.toList
  | .cutShort needed found => s!"expected {needed}, found {found}"
  | .damaged => "The file is damaged."

/-- Why a recorded expression cannot be read. -/
inductive ExpressionError where
  /-- A step of a code that has no meaning. -/
  | unknownStep (code : Nat)
  /-- An operand of `needed` octets where the expression has only `found` left. -/
  | cutShort (needed found : Nat)
  /-- An operand of variable length that the expression does not finish. -/
  | unfinishedNumber (isSigned : Bool)
  /-- A place of a kind that has no meaning. -/
  | unknownPlace (kind : Nat)
  /-- A number that is no octet. -/
  | notAnOctet
  deriving DecidableEq, Repr

/-- The wording of a fault in an expression. -/
def ExpressionError.message : ExpressionError → String
  | .unknownStep code => toString code
  | .cutShort needed found => s!"expected {needed}, found {found}"
  | .unfinishedNumber isSigned =>
    let name := if isSigned then "SLEB128" else "ULEB128"
    s!"unexpected end of stream while parsing a {name} encoded value"
  | .unknownPlace kind => s!"Unknown operation code in DW_OP_WASM_location: {kind}"
  | .notAnOctet => "bytes must be in range(0, 256)"

/-- A failure of any kind. -/
inductive Failure where
  | layout (e : LayoutError)
  | document (e : DocumentError)
  | profile (e : ProfileError)
  | request (e : RequestError)
  | container (e : ContainerError)
  /-- A composite value stands where a look-up key is needed. -/
  | compositeKey
  /-- A layout has no member of the key asked for. -/
  | missingMember (key : String)
  /-- Recorded types refer to one another without end. -/
  | endlessReference
  /-- A recorded expression cannot be read. -/
  | expression (e : ExpressionError)
  /-- A bitfield must not straddle windows that have no width. -/
  | emptyWindow
  /-- A store gave up all its layouts and still holds more than it may. -/
  | exhaustedStore
  deriving Repr

namespace Failure

/-- A failed layout without a path. -/
def ofCause (c : LayoutError.Cause) : Failure := .layout ⟨c, []⟩

/-- A fault of the part of a document at `place`. -/
def ofProblem (source place : String) (p : DocumentError.Problem) : Failure :=
  .document (.spec source place p)

/-- A failed layout with one more name at the outer end of its path; other failures have no path. -/
def push (name : String) : Failure → Failure
  | .layout e => .layout (e.push name)
  | f => f

/-- A result whose failure, if there is one, passed through the member `name`. -/
def within {α : Type} (name : String) : Except Failure α → Except Failure α
  | .ok a => .ok a
  | .error f => .error (f.push name)

@[simp] theorem push_empty (f : Failure) : f.push "" = f := by
  cases f <;> rfl

@[simp] theorem within_ok {α : Type} (name : String) (a : α) :
    within name (.ok a : Except Failure α) = .ok a := rfl

@[simp] theorem within_error {α : Type} (name : String) (f : Failure) :
    within name (.error f : Except Failure α) = .error (f.push name) := rfl

end Failure

end RecordLayout
