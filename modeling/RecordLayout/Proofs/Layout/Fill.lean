import RecordLayout.Proofs.Layout.Agreement

/-!
# The direction in which storage is filled

Where the fields of a unit go does not depend on the end from which the unit is filled; only the
number that the first bit of a field is given does.  So a layout under the profile that fills from
the other end is the same layout with its bits renumbered, and a failure is the very same failure.

The bits are counted inside the storage that a field is reported against.  That is the whole unit in
unit packing and the bytes that the field touches in bits packing, and either way it is the size of
the listed member, so that renumbering needs nothing but the layout itself.

## Main definitions

* `Profile.flipped` and `LayoutResult.flipped` fill storage from the other end;
* `LayoutResult.allocated` numbers bits in the order of declaration;
* `Comparison.flipped` compares the layouts of both directions.

## Main results

* `Bitfield.place_flipped`: one bitfield;
* `LayoutResult.allocated_flipped`: renumbering keeps the order of declaration;
* `Coupling.measures_flipped`: the layout of a type under the other direction;
* `layoutOf_flipped`: its form for plain layouts.
-/

namespace RecordLayout

/-! ## Directions -/

/-- The other direction. -/
def FillDirection.flip : FillDirection → FillDirection
  | .lowToHigh => .highToLow
  | .highToLow => .lowToHigh

@[simp] theorem FillDirection.flip_flip (d : FillDirection) : d.flip.flip = d := by cases d <;> rfl

theorem FillDirection.eq_flip_of_ne {d d' : FillDirection} (h : d' ≠ d) : d' = d.flip := by
  cases d <;> cases d' <;> first | rfl | exact absurd rfl h

/-- The profile that fills storage from the other end. -/
def Profile.flipped (p : Profile) : Profile := { p with fill := p.fill.flip }

@[simp] theorem Profile.flipped_flipped (p : Profile) : p.flipped.flipped = p := by
  simp [flipped]

theorem Profile.flipped_inj {p q : Profile} : p.flipped = q.flipped ↔ p = q :=
  ⟨fun h => by rw [← p.flipped_flipped, h, q.flipped_flipped], congrArg flipped⟩

/-- The same bits of storage of a size, counted from its other end. -/
def BitRange.flipped (size : Int) (b : BitRange) : BitRange :=
  ⟨size * 8 - b.offset - b.width, b.width⟩

/-! ## Bitfields -/

namespace Bitfield

/-- Counting from the other end in the other direction comes to the same bit. -/
theorem allocationBit_flip (fill : FillDirection) (byteOffset size bit width : Int) :
    allocationBit fill.flip byteOffset size (size * 8 - bit - width) width =
      allocationBit fill byteOffset size bit width := by
  cases fill <;> simp only [FillDirection.flip, allocationBit] <;> omega

/-- A place whose bit is counted from the other end of its storage. -/
def Placement.flipped (place : Placement) : Placement :=
  { place with bitOffset := place.unitSize * 8 - place.bitOffset - place.bitWidth }

/-- A placed field whose bit is counted from the other end of its storage. -/
def Placed.flipped (placed : Placed) : Placed :=
  { placed with placement := placed.placement.map Placement.flipped }

variable (p : Profile) (f : Field) (cursor : Int) (unit : Option OpenUnit)

theorem report_flipped (unitOffset low width unitSize alignment padding : Int) :
    report p.flipped unitOffset low width unitSize alignment padding =
      (report p unitOffset low width unitSize alignment padding).flipped := by
  unfold report Placement.flipped Profile.flipped
  simp only [Placement.mk.injEq, true_and, and_true]
  cases p.fill with
  | lowToHigh =>
    simp only [FillDirection.flip]
  | highToLow =>
    simp only [FillDirection.flip]
    omega

theorem flush_flipped : flush p.flipped cursor unit = flush p cursor unit := rfl

theorem placeZero_flipped :
    placeZero p.flipped f cursor unit = (placeZero p f cursor unit).flipped := rfl

theorem allocate_flipped (width : Int) (notes : List String) :
    allocate p.flipped f width cursor notes = (allocate p f width cursor notes).flipped := by
  simp only [allocate, report_flipped]
  rfl

theorem share_flipped (width : Int) (u : OpenUnit) :
    share p.flipped f width cursor u = (share p f width cursor u).flipped := by
  simp only [share, report_flipped]
  rfl

theorem placeInUnit_flipped (width : Int) :
    placeInUnit p.flipped f width cursor unit = (placeInUnit p f width cursor unit).flipped := by
  cases unit with
  | none => exact allocate_flipped p f cursor width []
  | some u =>
    have haccepts : u.accepts p.flipped f.extent = u.accepts p f.extent := rfl
    simp only [placeInUnit, haccepts, flush_flipped, allocate_flipped, share_flipped]
    split <;> rfl

theorem placeAtBit_flipped (width running : Int) (notes : List String) :
    placeAtBit p.flipped f width cursor running notes =
      (placeAtBit p f width cursor running notes).flipped := by
  simp only [placeAtBit, report_flipped]
  rfl

theorem placeInBits_flipped (width : Int) :
    placeInBits p.flipped f width cursor unit = (placeInBits p f width cursor unit).flipped := by
  cases unit with
  | none => exact placeAtBit_flipped p f cursor width _ []
  | some u =>
    have haccepts : u.accepts p.flipped f.extent = u.accepts p f.extent := rfl
    simp only [placeInBits, haccepts, flush_flipped, placeAtBit_flipped]
    split <;> rfl

theorem placeWidth_flipped (width : Int) :
    placeWidth p.flipped f width cursor unit = (placeWidth p f width cursor unit).flipped := by
  have hpacking : p.flipped.packing = p.packing := rfl
  unfold placeWidth
  rw [hpacking]
  split
  · exact placeZero_flipped p f cursor unit
  · cases p.packing with
    | bits => exact placeInBits_flipped p f cursor unit width
    | unit => exact placeInUnit_flipped p f cursor unit width

/-- **A bitfield goes to the same bits of storage** in either direction, or is refused in both. -/
theorem place_flipped :
    place p.flipped f cursor unit = (place p f cursor unit).map Placed.flipped := by
  have hpacking : p.flipped.packing = p.packing := rfl
  have hrefuse : refuseWindow p.flipped f cursor unit = refuseWindow p f cursor unit := rfl
  unfold place attempt
  rw [hpacking, hrefuse]
  cases f.checkedWidth with
  | error failure => rfl
  | ok width =>
    dsimp only
    split
    · rfl
    · rw [placeWidth_flipped]
      rfl

end Bitfield

/-! ## Layouts -/

/-- All bits are counted from the other end of their storage. -/
def View.flipped : View where
  bits _ size := .flipped size

/-- Every bitfield is numbered by its first bit in the order of declaration, counted from the start
of the aggregate that lists it. -/
def View.allocated (fill : FillDirection) : View where
  bits byteOffset size b := ⟨Bitfield.allocationBit fill byteOffset size b.offset b.width, b.width⟩

/-- The layout with all bits counted from the other end of their storage. -/
abbrev LayoutResult.flipped : LayoutResult → LayoutResult := through .flipped

/-- The layout with every bitfield numbered by its first bit in the order of declaration, counted
from the start of the aggregate that lists it. -/
abbrev LayoutResult.allocated (fill : FillDirection) : LayoutResult → LayoutResult :=
  through (.allocated fill)

theorem View.flipped_andThen_allocated (fill : FillDirection) :
    flipped.andThen (allocated fill.flip) = allocated fill := by
  simp only [andThen, flipped, allocated, BitRange.flipped, Bitfield.allocationBit_flip]
  rfl

/-- **Renumbering keeps the order of declaration**: the first bit of every field is the same, each
found in its own direction. -/
theorem LayoutResult.allocated_flipped (fill : FillDirection) (r : LayoutResult) :
    r.flipped.allocated fill.flip = r.allocated fill := by
  rw [allocated, flipped, through_through, View.flipped_andThen_allocated]

/-- A placed field is turned like the layout that it is part of. -/
theorem Bitfield.Placed.seenAs_flipped (placed : Placed) :
    SeenAs .flipped .plain placed placed.flipped := by
  refine .intro _ ?_
  cases placed.placement with
  | none => exact .none
  | some place => exact .some (.intro _ rfl)

theorem View.comparable_flipped (p : Profile) : View.Comparable p p.flipped .flipped .plain where
  left_local _ _ _ := rfl
  right_local _ _ _ := rfl
  left_flags := rfl
  right_flags := rfl
  describe h := congrArg (fun t => some (TypeNode.describe t)) h
  packing := rfl
  place f cursor unit := by
    rw [Bitfield.place_flipped]
    cases Bitfield.place p f cursor unit with
    | error e => exact .error rfl
    | ok placed => exact .ok placed.seenAs_flipped

/-- Layouts that are turned on the left, and layouts under the other direction on the right. -/
def Comparison.flipped (p : Profile) : Comparison p p.flipped where
  left := .flipped
  right := .plain
  comparable := View.comparable_flipped p

theorem Comparison.layouts_flipped {p : Profile} {r r' : LayoutResult} :
    (Comparison.flipped p).Layouts r r' ↔ r' = r.flipped := by
  rw [show (Comparison.flipped p).Layouts r r' = (r'.through .plain = r.flipped) from rfl,
    LayoutResult.through_plain]

/-- Computations that correspond are one computation, turned. -/
theorem Comparison.rel_layouts_flipped {p : Profile} {x y : Except Failure LayoutResult} :
    x.Rel Eq (Comparison.flipped p).Layouts y ↔ y = x.map LayoutResult.flipped := by
  rw [show (Comparison.flipped p).Layouts = fun r r' => r'.through .plain = r.flipped from rfl,
    Except.rel_eq_iff, map_through_plain]

/-- **The layouts of a type in both directions** correspond, in any two settings in which they do
when an aggregate is looked up. -/
theorem Coupling.measures_flipped {m n : Type → Type} [Monad m] [Monad n] {S : Setting m}
    {T : Setting n} {p : Profile} {F : Aggregate → Aggregate → Prop}
    (L : Coupling S T (.flipped p) F) (hF : ∀ a, F a a) (node : TypeNode) :
    L.Measures node node := by
  have halike : node.IsMeasuredAlike p p.flipped :=
    node.isMeasuredAlike (p := p) (q := p.flipped) (fun _ => rfl) fun _ _ _ => rfl
  exact measures_self (C := .flipped p) (fun _ => rfl) hereditary_true (fun a _ => hF a) halike
    trivial

/-- **The layout under the other direction** is the same layout with its bits turned, or the same
failure. -/
theorem layoutOf_flipped (p : Profile) (node : TypeNode) :
    layoutOf p.flipped node = (layoutOf p node).map LayoutResult.flipped := by
  have hmeasures := (Coupling.equal (.flipped p)).measures_flipped (fun _ => trivial) node
  exact Comparison.rel_layouts_flipped.mp ((Coupling.equal (.flipped p)).within _ hmeasures.compute)

end RecordLayout
