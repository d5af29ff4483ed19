import RecordLayout.Dwarf.Sections
import RecordLayout.Failure

/-!
# ELF containers

A header tells where the table of sections is; every section has a name, which is an offset into a
section of names.

## Main definitions

* `Elf.Header` is a header, and `Elf.readHeader` reads it;
* `Elf.sections` reads the sections;
* `Elf.debugSections` picks those with debugging information.
-/

namespace RecordLayout.Elf

/-- A header: the width of an address in octets and the table of sections.  A table at offset zero
is no table. -/
structure Header where
  order : ByteOrder
  addressSize : Nat
  tableOffset : Nat
  entrySize : Nat
  entryCount : Nat
  /-- The index of the section that holds the names. -/
  namesIndex : Nat
  deriving DecidableEq, Repr

/-- A named section. -/
structure Section where
  name : List UInt8
  octets : List UInt8
  deriving DecidableEq, Repr

/-- The number of a size at an offset. -/
def numberAt (order : ByteOrder) (octets : List UInt8) (offset size : Nat) : Nat :=
  order.number (Octets.part offset size octets)

/-- The width of an address in octets, by the octet that stands for it. -/
def addressSizeOf? : UInt8 → Option Nat
  | 1 => some 4
  | 2 => some 8
  | _ => none

/-- The byte order, by the octet that stands for it. -/
def orderOf? : UInt8 → Option ByteOrder
  | 1 => some .little
  | 2 => some .big
  | _ => none

/-- The sizes of the fields of a header, from the one after the byte order on. -/
def fieldSizes (addressSize : Nat) : List Nat :=
  [1, 1, 1, 7, 2, 2, 4, addressSize, addressSize, addressSize, 4, 2, 2, 2, 2, 2, 2]

/-- Whether fields of these sizes fit into the octets that are left. -/
def checkFields (left : Nat) : List Nat → Except ContainerError Unit
  | [] => .ok ()
  | size :: sizes =>
    if left < size then .error (.cutShort size left) else checkFields (left - size) sizes

/-- The header of a container. -/
def readHeader (octets : List UInt8) : Except ContainerError Header :=
  match octets[4]?.bind addressSizeOf? with
  | none => .error (.unknownWidth octets[4]?)
  | some addressSize =>
    match octets[5]?.bind orderOf? with
    | none => .error (.unknownOrder octets[5]?)
    | some order => do
      checkFields (octets.length - 6) (fieldSizes addressSize)
      let number := numberAt order octets
      if addressSize = 8 then
        return ⟨order, 8, number 0x28 8, number 0x3a 2, number 0x3c 2, number 0x3e 2⟩
      else
        return ⟨order, 4, number 0x20 4, number 0x2e 2, number 0x30 2, number 0x32 2⟩

namespace Header

/-- Where the entry of a section is. -/
def entryAt (h : Header) (index : Nat) : Nat := h.tableOffset + h.entrySize * index

/-- The number of the entry of a section that stands at one place in a wide table and at another in
a narrow one. -/
def fieldAt (h : Header) (octets : List UInt8) (index wide narrow size : Nat) : Nat :=
  numberAt h.order octets (h.entryAt index + if h.addressSize = 8 then wide else narrow) size

/-- The offset of the section of an entry. -/
def offsetAt (h : Header) (octets : List UInt8) (index : Nat) : Nat :=
  h.fieldAt octets index 0x18 0x10 h.addressSize

/-- The size of the section of an entry. -/
def sizeAt (h : Header) (octets : List UInt8) (index : Nat) : Nat :=
  h.fieldAt octets index 0x20 0x14 h.addressSize

/-- The index of the section that the section of an entry is linked to. -/
def linkAt (h : Header) (octets : List UInt8) (index : Nat) : Nat :=
  h.fieldAt octets index 0x28 0x18 4

/-- The contents of the section of an entry. -/
def contentsAt (h : Header) (octets : List UInt8) (index : Nat) : List UInt8 :=
  Octets.part (h.offsetAt octets index) (h.sizeAt octets index) octets

/-- The section of an entry. -/
def sectionAt (h : Header) (octets names : List UInt8) (index : Nat) : Section :=
  { name := Octets.beforeZero (names.drop (numberAt h.order octets (h.entryAt index) 4))
    octets := h.contentsAt octets index }

/-- The number of sections.  One that does not fit into the header stands as the size of the first
section, and the header has zero. -/
def sectionCount (h : Header) (octets : List UInt8) : Nat :=
  if h.tableOffset = 0 then 0
  else if h.entryCount = 0 then h.sizeAt octets 0
  else h.entryCount

/-- The index that says that the true one does not fit into the header. -/
def extendedIndex : Nat := 0xffff

/-- The names of the sections.  An index that does not fit into the header is the link of the first
section. -/
def names (h : Header) (octets : List UInt8) : List UInt8 :=
  let index := if h.namesIndex = extendedIndex then h.linkAt octets 0 else h.namesIndex
  h.contentsAt octets index

end Header

/-- The sections of a container in the order of the table. -/
def sections (octets : List UInt8) (h : Header) : List Section :=
  (List.range (h.sectionCount octets)).map (h.sectionAt octets (h.names octets))

/-- The section of a name: the last one, if there are several. -/
def sectionNamed? (ss : List Section) (name : String) : Option Section :=
  ss.reverse.find? fun s => s.name == name.toUTF8.toList

/-- Whether a container says that it has debugging information. -/
def hasDebugInformation (ss : List Section) : Bool :=
  [".debug_info", ".zdebug_info", ".eh_frame"].any fun name => (sectionNamed? ss name).isSome

/-- The sections with debugging information. -/
def debugSections (order : ByteOrder) (ss : List Section) : Dwarf.Sections :=
  let contents := fun name => ((sectionNamed? ss name).map (·.octets)).getD []
  { order
    info := contents ".debug_info"
    abbreviations := contents ".debug_abbrev"
    texts := contents ".debug_str"
    lineTexts := contents ".debug_line_str"
    textOffsets := contents ".debug_str_offsets" }

end RecordLayout.Elf
