import RecordLayout.Failure
import RecordLayout.Number.Alignment
import RecordLayout.Profile.Basic
import RecordLayout.TypeTree.Basic

/-!
# Sizes and alignments

How much room a type needs and where it may start, as far as that depends on the type alone, and
how the attributes and the pack around it change its alignment.

## Main definitions

* `Extent` is a size with an alignment, and `Extent.capped` is its form under a pack;
* `Aggregate.packCap` is the cap that an aggregate puts on the alignment of its members;
* `Profile.primitiveExtent` is the extent of a scalar;
* `Profile.memberExtent` is the extent of a member, attributes included.

## Main results

* `arrayCount_congr`, `checkFlexibleElement_congr`: what arrays ask of their elements.
-/

namespace RecordLayout

/-- A size with an alignment. -/
structure Extent where
  size : Int
  alignment : Int
  /-- Whether the size was written as a flag, and is still shown as one. -/
  sizeIsFlag : Bool := false
  deriving DecidableEq, Repr, Inhabited

/-- An alignment under a cap. -/
def capAlignment (alignment : Int) : Option Int → Int
  | none => alignment
  | some cap => min alignment cap

/-- An extent whose alignment is capped. -/
def Extent.capped (x : Extent) (cap : Option Int) : Extent :=
  { x with alignment := capAlignment x.alignment cap }

/-- The alignment that a written constant stands for, when it is a power of two. -/
def alignmentOf? : Json → Option Int
  | .int n => if Number.isPowerOfTwo n then some n else none
  | _ => none

/-- The cap that an aggregate puts on its members: its pack, or one when it is packed.  A pack that
is no power of two is an error even if the aggregate is packed. -/
def Aggregate.packCap (a : Aggregate) : Except Failure (Option Int) := do
  let cap ←
    match a.pack with
    | none => pure none
    | some pack =>
      match alignmentOf? pack with
      | some n => pure (some n)
      | none => throw (.ofCause (.packNotPowerOfTwo pack))
  -- The pack is checked by now, so being packed cannot hide a bad one.
  return if a.attributes.packed then some 1 else cap

/-- The cap on a member: one when the member is packed, else that of its aggregate. -/
def Member.cap (m : Member) (around : Option Int) : Option Int :=
  if m.attributes.packed then some 1 else around

/-- A requested alignment must be a power of two; `what` says where it was requested. -/
def checkAligned (requested : Int) (what : String) : Except Failure Unit :=
  if Number.isPowerOfTwo requested then .ok ()
  else .error (.ofCause (.alignedNotPowerOfTwo requested what))

/-- A name in a message. -/
def nameOrAnonymous (name : Option String) : String :=
  (nonemptyName? name).getD "<anonymous>"

namespace Profile

/-- The alignment of a primitive whose size is known. -/
def primitiveAlignment (p : Profile) (q : Primitive) (size : Int) : Except Failure Int :=
  match q.alignment with
  | none => .ok (p.alignmentFor size)
  | some alignment =>
    match alignmentOf? alignment.constant with
    | some n => .ok n
    | none => .error (.ofCause (.primitiveAlignment q.name alignment))

/-- The extent of a scalar: its own size and alignment where it has them, else the profile's. -/
def primitiveExtent (p : Profile) (q : Primitive) : Except Failure Extent :=
  match q.size <|> (p.sizeOf? q.name).map Quantity.int with
  | none => .error (.ofCause (.sizeUnknown q.name p.name))
  | some size =>
    if size.value ≤ 0 then .error (.ofCause (.primitiveSize q.name size))
    else
      (p.primitiveAlignment q size.value).map fun alignment =>
        ⟨size.value, alignment, size.isFlag⟩

/-- The extent of a member whose type has the natural extent `natural`, under the cap of its
aggregate. -/
def memberExtent (p : Profile) (m : Member) (around : Option Int) (natural : Extent) :
    Except Failure Extent :=
  let cap := m.cap around
  match m.attributes.requested? with
  | none => .ok (natural.capped cap)
  | some requested => do
    checkAligned requested ("member " ++ nameOrAnonymous m.name)
    if m.attributes.packed && p.alignedWithPackedIsError then
      throw (.ofCause (.alignedOnPacked requested p.name))
    if p.alignedOverridesPack then
      return { natural with alignment := max (capAlignment natural.alignment cap) requested }
    return { natural with alignment := capAlignment (max natural.alignment requested) cap }

end Profile

/-- The numbers of the dimensions of an array, all of which must be positive. -/
def dimensionSizes : List Json → Except Failure (List Int)
  | [] => .ok []
  | d :: ds =>
    match d with
    | .int n =>
      if n ≤ 0 then .error (.ofCause (.arrayDimension d)) else (dimensionSizes ds).map (n :: ·)
    | _ => .error (.ofCause (.arrayDimension d))

/-- The number of elements of an array with a given element, or the reason why there is no such
array. -/
def arrayCount (element : TypeNode) (dimensions : List Json) : Except Failure Int := do
  if dimensions.isEmpty then throw (.ofCause (.arrayWithoutDimensions element.spelled))
  let sizes ← dimensionSizes dimensions
  match element.memberOnly? with
  | some kind => throw (.ofCause (.arrayOf kind))
  | none => return sizes.foldl (· * ·) 1

/-- Open-ended arrays, too, have elements that can stand alone. -/
def checkFlexibleElement (element : TypeNode) : Except Failure Unit :=
  match element.memberOnly? with
  | some kind => .error (.ofCause (.flexibleArrayOf kind))
  | none => .ok ()

section

variable {e e' : TypeNode} {dims : List Json}

/-- An array that has dimensions only asks whether its elements can stand alone. -/
theorem arrayCount_congr (h : e'.memberOnly? = e.memberOnly?) (hdims : dims ≠ []) :
    arrayCount e' dims = arrayCount e dims := by
  rw [arrayCount, arrayCount, h, List.isEmpty_eq_false_iff.mpr hdims]
  rfl

theorem checkFlexibleElement_congr (h : e'.memberOnly? = e.memberOnly?) :
    checkFlexibleElement e' = checkFlexibleElement e := by
  rw [checkFlexibleElement, h, checkFlexibleElement]

end

end RecordLayout
