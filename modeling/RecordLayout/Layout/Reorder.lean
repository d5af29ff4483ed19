import RecordLayout.Layout.Sequence
import RecordLayout.Number.Binary64

/-!
# Reordering members

A struct wastes least room when its members come in the order of falling alignment.  The suggestion
sorts them by alignment and then by size, the greatest first and equals in the order of declaration;
an open-ended array stays last.  Runs of bitfields depend on their order, so a struct that holds
bitfields has no suggestion.

## Main definitions

* `Suggestion` is a suggested order with its layout;
* `suggestedOrder` sorts measured members;
* `suggestReorder` makes the suggestion for a type.
-/

namespace RecordLayout

/-- A suggested order of the members of a struct, its layout, and the size in the declared order. -/
structure Suggestion where
  members : List Member
  layout : LayoutResult
  declaredSize : Int

namespace Suggestion

/-- The size in the suggested order. -/
def optimizedSize (s : Suggestion) : Int := s.layout.size

/-- The bytes that the suggested order saves. -/
def bytesSaved (s : Suggestion) : Int := max 0 (s.declaredSize - s.optimizedSize)

/-- The part of the declared size that is saved, in percent. -/
def savingRatio (s : Suggestion) : Binary64 :=
  if s.declaredSize ≤ 0 then .zero false
  else (Binary64.ofQuotient s.bytesSaved.toNat s.declaredSize.toNat).scale 100

/-- A suggestion is worth showing when it saves something. -/
def saves (s : Suggestion) : Bool := 0 < s.bytesSaved

end Suggestion

/-- A member with the extent that it has in the declared order. -/
structure PlacedMember where
  member : Member
  extent : Extent

/-- Whether one member may come before another in the suggested order. -/
def PlacedMember.before (a b : PlacedMember) : Bool :=
  b.extent.alignment < a.extent.alignment
    || (a.extent.alignment == b.extent.alignment && b.extent.size ≤ a.extent.size)

/-- The extent of the direct member of a key. -/
def LayoutResult.directExtent? (r : LayoutResult) (key : String) : Option Extent :=
  (r.members.find? fun m => m.key == key && !m.promoted).map fun m =>
    ⟨m.size, m.alignment, m.sizeIsFlag⟩

/-- Whether the type of a member is an open-ended array. -/
def Member.isFlexible (m : Member) : Bool :=
  match m.type with
  | .flexibleArray _ => true
  | _ => false

/-- Whether the type of a member is a bitfield. -/
def Member.isBitfield (m : Member) : Bool :=
  match m.type with
  | .bitfield _ _ => true
  | _ => false

/-- The members of a struct from position `index` on, with their extents in the layout `r`. -/
def placedMembers (r : LayoutResult) (index : Nat) : List Member → List PlacedMember
  | [] => []
  | x :: xs =>
    ⟨x, (r.directExtent? (memberKey x index)).getD ⟨0, 0, false⟩⟩ :: placedMembers r (index + 1) xs

/-- The suggested order of the members of a struct with the layout `r`. -/
def suggestedOrder (r : LayoutResult) (members : List Member) : List Member :=
  let placed := placedMembers r 0 members
  let movable := placed.filter fun x => !x.member.isFlexible
  let trailing := placed.filter fun x => x.member.isFlexible
  (movable.mergeSort PlacedMember.before ++ trailing).map (·.member)

/-- The suggestion for a type, where `layout` computes layouts.  Only structs without bitfields
have one. -/
def suggestReorder {m : Type → Type} [Monad m] (layout : TypeNode → m LayoutResult)
    (node : TypeNode) : m (Option Suggestion) :=
  match node with
  | .aggregate a =>
    match a.kind with
    | .union => return none
    | .struct =>
      if a.members.any Member.isBitfield then return none
      else do
        let current ← layout node
        let members := suggestedOrder current a.members
        let reordered ← layout (.aggregate { a with members })
        return some ⟨members, reordered, current.size⟩
  | _ => return none

end RecordLayout
