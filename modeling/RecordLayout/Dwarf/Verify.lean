import RecordLayout.Dwarf.Placement
import RecordLayout.Layout.Engine
import RecordLayout.Layout.NameTable

/-!
# Verification against debugging information

Lays out a recorded type under a profile and compares the result with the places that the compiler
recorded.

## Main definitions

* `Dwarf.Mismatch` is one difference;
* `Dwarf.VerifyReport` is the outcome of a comparison, and `Dwarf.VerifyReport.text` its wording;
* `Dwarf.compareMembers` compares the members;
* `Dwarf.verify` verifies a type by name.
-/

namespace RecordLayout.Dwarf

/-- A difference between what is recorded and what is computed. -/
inductive Mismatch where
  | size (recorded computed : Quantity)
  | missing (name : String)
  | offset (name : String) (recorded computed : Int)
  | bitOffset (name : String) (recorded computed : Int)
  deriving DecidableEq, Repr

/-- The wording of a difference. -/
def Mismatch.text : Mismatch → String
  | .size recorded computed => s!"size: DWARF says {recorded.text}, computed {computed.text}"
  | .missing name => s!"{name}: DWARF says present, computed missing"
  | .offset name recorded computed => s!"{name} offset: DWARF says {recorded}, computed {computed}"
  | .bitOffset name recorded computed =>
    s!"{name} bit offset: DWARF says {recorded}, computed {computed}"

/-- The outcome of a comparison. -/
structure VerifyReport where
  typeName : String
  profile : String
  layout : LayoutResult
  /-- The number of recorded members that the layout has. -/
  checked : Nat
  mismatches : List Mismatch

/-- Whether no difference was found. -/
def VerifyReport.ok (r : VerifyReport) : Bool := r.mismatches.isEmpty

/-- The wording of an outcome. -/
def VerifyReport.text (r : VerifyReport) : String :=
  let status := if r.ok then "OK" else s!"{r.mismatches.length} mismatch(es)"
  let heading :=
    s!"{r.layout.kind.label} {r.typeName} under {r.profile}: size={r.layout.shownSize.text} "
      ++ s!"align={r.layout.alignment}, {r.checked} member(s) checked, {status}"
  String.intercalate "\n" (heading :: r.mismatches.map fun m => "  " ++ m.text) ++ "\n"

/-- The note on a finished comparison. -/
def VerifyReport.note (r : VerifyReport) : String :=
  s!"{r.typeName}: {r.checked} member(s) compared, {r.mismatches.length} mismatch(es)"

/-- The difference between a recorded member and its entry in the name table. -/
def memberMismatch? (p : Profile) (m : RecordedMember) (e : NameEntry) : Option Mismatch :=
  match m.bitSize with
  | some _ =>
    match m.bitOffset, e.bits with
    | some recorded, some bits =>
      let computed :=
        Bitfield.allocationBit p.fill e.byteOffset ((e.storageSize.map Quantity.value).getD 0)
          bits.offset bits.width
      if computed = recorded then none else some (.bitOffset m.name recorded computed)
    | _, _ => none
  | none =>
    match m.byteOffset with
    | some recorded =>
      if recorded = e.byteOffset then none else some (.offset m.name recorded e.byteOffset)
    | none => none

/-- The number of members that the table has, and the differences, in the order of the members. -/
def compareMembers (p : Profile) (table : NameTable) : List RecordedMember → Nat × List Mismatch
  | [] => (0, [])
  | m :: ms =>
    let (checked, mismatches) := compareMembers p table ms
    match NameTable.get? m.name table with
    -- A member that the layout has not is a difference, but was not compared.
    | none => (checked, .missing m.name :: mismatches)
    | some e => (checked + 1, (memberMismatch? p m e).toList ++ mismatches)

/-- The difference between a recorded size and the computed one. -/
def sizeMismatch? (recorded : Option Quantity) (layout : LayoutResult) : Option Mismatch :=
  match recorded with
  | none => none
  | some size =>
    if size.value = layout.size then none else some (.size size layout.shownSize)

/-- Compares a recorded type with a layout of it. -/
def compareType (p : Profile) (t : RecordedType) (layout : LayoutResult) :
    Except Failure VerifyReport :=
  layout.nameTable.map fun table =>
    let (checked, mismatches) := compareMembers p table t.members
    { typeName := t.name
      profile := p.name
      layout
      checked
      mismatches := (sizeMismatch? t.size layout).toList ++ mismatches }

/-- A verification: the outcome, and the states of the builder and of the engine after it. -/
structure Verification where
  outcome : Except Failure VerifyReport
  builder : Builder
  engine : Engine

/-- Verifies the type of a name by way of an engine. -/
def verify (info : Info) (typeName : String) (p : Profile) (engine : Engine) : Verification :=
  let (built, builder) := (buildType info typeName).run .fresh
  match built with
  | .error f => ⟨.error f, builder, engine⟩
  | .ok t =>
    let (layout, engine) := (Engine.layout p t.node).run engine
    ⟨layout >>= compareType p t, builder, engine⟩

end RecordLayout.Dwarf
