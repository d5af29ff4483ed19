import RecordLayout.Failure
import RecordLayout.Octets
import RecordLayout.Text.Utf8

/-!
# Mach-O containers

A container holds one slice, or a table of slices for several architectures.  A slice begins with a
header and load commands; the commands that describe segments list their sections.

## Main definitions

* `MachO.Header` is the header of a slice with its commands;
* `MachO.headers` reads the headers of all slices;
* `MachO.Header.segments` has the commands that describe segments;
* `MachO.Header.debugSections` reads the sections with debugging information.
-/

namespace RecordLayout.MachO

/-- A section of a segment; its offset counts from the start of the slice. -/
structure Section where
  name : List UInt8
  address : Nat
  size : Nat
  offset : Nat
  deriving DecidableEq, Repr, Inhabited

/-- A load command.  Only those that describe segments have a name and sections. -/
structure Command where
  code : Nat
  segment : List UInt8
  sections : List Section
  deriving DecidableEq, Repr, Inhabited

/-- The header of a slice with its commands. -/
structure Header where
  magic : Nat
  cpuType : Int
  cpuSubtype : Int
  /-- Where the slice begins in the container. -/
  offset : Nat
  commands : List Command
  deriving DecidableEq, Repr, Inhabited

/-! ## Constants of the format -/

/-- The magic number of a slice with narrow addresses. -/
def narrowMagic : Nat := 0xfeedface

/-- The magic number of a slice with wide addresses. -/
def wideMagic : Nat := 0xfeedfacf

/-- The magic number of wide addresses in the other byte order. -/
def wideMagicSwapped : Nat := 0xcffaedfe

/-- The magic number of narrow addresses in the other byte order. -/
def narrowMagicSwapped : Nat := 0xcefaedfe

/-- The magic number of a table of slices. -/
def tableMagic : Nat := 0xcafebabe

/-- The code of the command that describes a segment with narrow addresses. -/
def narrowSegmentCode : Nat := 1

/-- The code of the command that describes a segment with wide addresses. -/
def wideSegmentCode : Nat := 25

/-! ## Parts of a header -/

/-- A name: the text before the first zero. -/
def nameOf (bs : List UInt8) : String := Text.Utf8.decodeLossy (Octets.beforeZero bs)

/-- The name of a section. -/
def Section.label (s : Section) : String := nameOf s.name

/-- The name of a segment. -/
def Command.label (c : Command) : String := nameOf c.segment

namespace Header

/-- Whether the addresses of a slice are wide. -/
def isWide (h : Header) : Bool := h.magic = wideMagic || h.magic = wideMagicSwapped

/-- The commands that describe segments. -/
def segments (h : Header) : List Command :=
  h.commands.filter fun c => c.code = narrowSegmentCode || c.code = wideSegmentCode

/-- Whether a slice has a segment for debugging information. -/
def hasDebugSegment (h : Header) : Bool := h.segments.any fun c => c.label = "__DWARF"

end Header

/-! ## Sections with debugging information -/

/-- The names of the sections with debugging information. -/
def debugSectionNames : List String :=
  ["__debug_info", "__debug_aranges", "__debug_abbrev", "__debug_frame", "__eh_frame",
   "__debug_str", "__debug_loc", "__debug_ranges", "__debug_line", "__debug_pubtypes",
   "__debug_pubnames", "__debug_addr", "__debug_str_offs", "__debug_line_str", "__debug_loclists",
   "__debug_rnglists", "__debug_sup", "__gnu_debugaltlink", "__debug_types"]

/-- A section with debugging information; its offset counts from the start of the container, and its
size is the one that is stated, also where the container ends before. -/
structure DebugSection where
  name : String
  offset : Nat
  size : Nat
  address : Nat
  octets : List UInt8
  deriving DecidableEq, Repr

/-- The sections with debugging information of the slice of a header.  Of several sections of a
name the first one counts. -/
def Header.debugSections (h : Header) (container : List UInt8) : List DebugSection :=
  let add := fun (found : List DebugSection) (s : Section) =>
    if !debugSectionNames.contains s.label || found.any (fun d => d.name == s.label) then found
    else
      let offset := h.offset + s.offset
      found ++ [⟨s.label, offset, s.size, s.address, Octets.part offset s.size container⟩]
  (h.segments.flatMap Command.sections).foldl add []

/-! ## Reading headers -/

/-- The number of octets of a name. -/
def nameSize : Nat := 16

/-- The next section. -/
def readSection (order : ByteOrder) (wide : Bool) : Octets.Reader Section := do
  let word := if wide then 8 else 4
  let name ← Octets.take nameSize
  -- The name of the segment stands again in each of its sections.
  let _ ← Octets.take nameSize
  let address ← Octets.number order word
  let size ← Octets.number order word
  let offset ← Octets.number order 4
  let _ ← Octets.take (if wide then 28 else 24)
  return ⟨name, address, size, offset⟩

/-- The next command. -/
def readCommand (order : ByteOrder) : Octets.Reader Command := do
  let code ← Octets.number order 4
  let size ← Octets.number order 4
  if code = narrowSegmentCode || code = wideSegmentCode then
    let wide := code = wideSegmentCode
    let name ← Octets.take nameSize
    let _ ← Octets.take (if wide then 40 else 24)
    let count ← Octets.number order 4
    let _ ← Octets.take 4
    let sections ← Octets.repeated (readSection order wide) count
    return ⟨code, name, sections⟩
  else
    -- The size of a command counts its code and the size itself.
    let _ ← Octets.take (size - 8)
    return ⟨code, [], []⟩

/-- The header of the slice at an offset, after its magic number. -/
def readHeader (order : ByteOrder) (magic offset : Nat) : Octets.Reader Header := do
  let cpuType ← Octets.signed order 4
  let cpuSubtype ← Octets.signed order 4
  let _ ← Octets.take 4
  let count ← Octets.number order 4
  -- The size of the commands, the flags, and a word that only wide headers have.
  let _ ← Octets.take (if magic = wideMagic then 12 else 8)
  let commands ← Octets.repeated (readCommand order) count
  return ⟨magic, cpuType, cpuSubtype, offset, commands⟩

/-- The byte order and the magic number in it, by the number that the first octets write high octet
first. -/
def orderOf? (first : Nat) : Option (ByteOrder × Nat) :=
  if first = narrowMagic || first = wideMagic then some (.big, first)
  else if first = narrowMagicSwapped then some (.little, narrowMagic)
  else if first = wideMagicSwapped then some (.little, wideMagic)
  else none

/-- The header of the slice at an offset of the container of a path. -/
def headerAt (path : String) (container : List UInt8) (offset : Nat) : Except Failure Header :=
  match (Octets.number .big 4).run (container.drop offset) with
  | none => .error (.container .damaged)
  | some (first, rest) =>
    match orderOf? first with
    | none => .error (.request (.unknownSlice first path))
    | some (order, magic) =>
      match (readHeader order magic offset).run rest with
      | some (header, _) => .ok header
      | none => .error (.container .damaged)

/-- The offset of a slice in the next entry of a table. -/
def readSliceOffset : Octets.Reader Nat := do
  let _ ← Octets.take 8
  let offset ← Octets.number .big 4
  let _ ← Octets.take 8
  return offset

/-- The offsets of the slices in a table. -/
def readTable : Octets.Reader (List Nat) := do
  Octets.repeated readSliceOffset (← Octets.number .big 4)

/-- The headers of all slices of the container of a path. -/
def headers (path : String) (container : List UInt8) : Except Failure (List Header) :=
  match (Octets.number .big 4).run container with
  | none => .error (.container .damaged)
  | some (first, rest) =>
    if first = tableMagic then
      match readTable.run rest with
      | none => .error (.container .damaged)
      | some (offsets, _) => offsets.mapM (headerAt path container)
    else return [← headerAt path container 0]

end RecordLayout.MachO
