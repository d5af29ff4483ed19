import RecordLayout.Container.MachO
import RecordLayout.Text.Lowercase

/-!
# Architectures

The slices of a container differ in the architecture that they are for.

## Main definitions

* `Architecture` is an architecture, and `MachO.Header.architecture` that of a slice;
* `Architecture.isWanted` says whether a name that is asked for means an architecture;
* `MachO.pickSlice` picks a slice.
-/

namespace RecordLayout

/-- An architecture: its name, and the name that expressions know its machine by. -/
structure Architecture where
  name : String
  machine : String
  deriving DecidableEq, Repr

namespace Architecture

/-- The name of a processor by the number of its type. -/
def processorName : Int → String
  | -1 => "any"
  | 1 => "vax"
  | 6 => "mc680x0"
  | 7 => "i386"
  | 0x01000007 => "x86_64"
  | 8 => "mips"
  | 10 => "mc98000"
  | 11 => "hppa"
  | 12 => "arm"
  | 0x0100000c => "arm64"
  | 13 => "mc88000"
  | 14 => "sparc"
  | 15 => "i860"
  | 16 => "alpha"
  | 18 => "powerpc"
  | 0x01000012 => "powerpc64"
  | _ => "unknown"

/-- The architecture of a processor, for those that have a machine of their own. -/
def known? : String → Option Architecture
  | "x86_64" => some ⟨"x86_64", "x64"⟩
  | "i386" => some ⟨"x86", "x86"⟩
  | "arm64" => some ⟨"arm64", "AArch64"⟩
  | "arm" => some ⟨"arm", "ARM"⟩
  | "powerpc" => some ⟨"ppc", "PPC"⟩
  | "powerpc64" => some ⟨"ppc64", "PPC64"⟩
  | _ => none

/-- The names that an architecture is asked for by. -/
def aliases : String → List String
  | "x86_64" => ["x86_64", "x64", "amd64"]
  | "x86" => ["x86", "i386", "i686"]
  | "arm64" => ["arm64", "aarch64"]
  | "arm64e" => ["arm64e"]
  | "arm" => ["arm", "armv7", "armv7s"]
  | "ppc" => ["ppc", "powerpc"]
  | "ppc64" => ["ppc64", "powerpc64"]
  | _ => []

/-- A name without what does not count: case, hyphens and underscores. -/
def canonicalName (name : String) : String :=
  String.ofList ((Text.lowercase name).toList.filter fun c => c ≠ '-' && c ≠ '_')

/-- Whether a name that is asked for means the architecture of another name. -/
def isWanted (requested name : String) : Bool :=
  (name :: aliases name).any fun candidate => canonicalName requested == canonicalName candidate

end Architecture

namespace MachO

/-- The architecture of a slice. -/
def Header.architecture (h : Header) : Architecture :=
  let processor := Architecture.processorName h.cpuType
  match Architecture.known? processor with
  | some a => if a.name = "arm64" && h.cpuSubtype = 2 then { a with name := "arm64e" } else a
  | none => ⟨processor, if h.isWide then "x64" else "x86"⟩

/-- The names of the architectures of slices, ascending and each once. -/
def architectureNames (hs : List Header) : List String :=
  ((hs.map fun h => h.architecture.name).eraseDups).mergeSort fun a b => decide (a ≤ b)

/-- The slice for the architecture that is asked for.  If none is asked for, the first slice with a
segment for debugging information is picked, or else the first slice. -/
def pickSlice (hs : List Header) (requested : Option String) : Except Failure (Option Header) :=
  match hs, requested.filter (· ≠ "") with
  | [], _ => .ok none
  | hs, some name =>
    match hs.find? fun h => Architecture.isWanted name h.architecture.name with
    | some h => .ok (some h)
    | none => .error (.request (.architectureMissing name (architectureNames hs)))
  | hs, none => .ok ((hs.find? Header.hasDebugSegment) <|> hs.head?)

end MachO

end RecordLayout
