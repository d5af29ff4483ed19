import RecordLayout.Container.Architecture
import RecordLayout.Container.Elf

/-!
# Loading debugging information

The first octets of a file tell which kind of container it is, if it is one at all.

## Main definitions

* `Container.Kind` is a kind of container, and `Container.Kind.of?` that of a file;
* `Container.load` reads the debugging information of a file.
-/

namespace RecordLayout.Container

/-- A kind of container. -/
inductive Kind where
  | elf
  | machO
  deriving DecidableEq, Repr

/-- The kind of container that a file is. -/
def Kind.of? (octets : List UInt8) : Option Kind :=
  match octets.take 4 with
  | [0x7f, 0x45, 0x4c, 0x46] => some .elf
  | [0xfe, 0xed, 0xfa, 0xce] => some .machO
  | [0xce, 0xfa, 0xed, 0xfe] => some .machO
  | [0xfe, 0xed, 0xfa, 0xcf] => some .machO
  | [0xcf, 0xfa, 0xed, 0xfe] => some .machO
  | [0xca, 0xfe, 0xba, 0xbe] => some .machO
  | [0xbe, 0xba, 0xfe, 0xca] => some .machO
  | _ => none

/-- Whether a file is a container. -/
def isContainer (octets : List UInt8) : Bool := (Kind.of? octets).isSome

/-- The debugging information of a container, and the width of its addresses in octets. -/
structure Binary where
  addressSize : Nat
  info : Dwarf.Info

/-- The debugging information of sections. -/
def ofSections (addressSize : Nat) (sections : Dwarf.Sections) : Except Failure Binary :=
  match sections.info? addressSize with
  | some info => .ok ⟨addressSize, info⟩
  | none => .error (.container .damaged)

/-- The debugging information of an ELF container. -/
def loadElf (octets : List UInt8) : Except Failure Binary :=
  match Elf.readHeader octets with
  | .error e => .error (.container e)
  | .ok header =>
    let sections := Elf.sections octets header
    if Elf.hasDebugInformation sections then
      ofSections header.addressSize (Elf.debugSections header.order sections)
    else .error (.request .noDebugInformation)

/-- The sections with debugging information of a slice.  Their byte order is taken to be little
endian, whatever that of the header is. -/
def sliceSections (sections : List MachO.DebugSection) : Dwarf.Sections :=
  let contents := fun name =>
    ((sections.find? fun s => s.name == name).map (·.octets)).getD []
  { order := .little
    info := contents "__debug_info"
    abbreviations := contents "__debug_abbrev"
    texts := contents "__debug_str"
    lineTexts := contents "__debug_line_str"
    textOffsets := contents "__debug_str_offs" }

/-- The debugging information of a Mach-O container. -/
def loadMachO (path : String) (octets : List UInt8) (architecture : Option String) :
    Except Failure Binary := do
  match ← MachO.pickSlice (← MachO.headers path octets) architecture with
  | none => .error (.request (.noSlices path))
  | some header =>
    let sections := header.debugSections octets
    if sections.any fun s => s.name == "__debug_info" then
      ofSections (if header.isWide then 8 else 4) (sliceSections sections)
    else .error (.request .noInfoSection)

/-- The debugging information of the file of a path, in the slice for an architecture. -/
def load (path : String) (octets : List UInt8) (architecture : Option String) :
    Except Failure Binary :=
  match Kind.of? octets with
  | some .elf => loadElf octets
  | some .machO => loadMachO path octets architecture
  | none => .error (.request .unknownContainer)

end RecordLayout.Container
