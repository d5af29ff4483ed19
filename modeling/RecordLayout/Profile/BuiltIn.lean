import RecordLayout.Failure
import RecordLayout.Profile.Basic

/-!
# Built-in profiles

The four profiles that are known by name.

## Main definitions

* `Profile.lp64`, `Profile.sysvX8664`, `Profile.ilp32` and `Profile.llp64`;
* `Profile.named?` and `Profile.named` look a profile up.
-/

namespace RecordLayout.Profile

/-- The sizes that all data models share. -/
def sharedSizes : SortedTable String Int :=
  [("char", 1), ("signed char", 1), ("unsigned char", 1), ("_Bool", 1), ("bool", 1),
   ("short", 2), ("short int", 2), ("signed short", 2), ("signed short int", 2),
   ("unsigned short", 2), ("unsigned short int", 2),
   ("int", 4), ("signed", 4), ("signed int", 4), ("unsigned", 4), ("unsigned int", 4),
   ("long long", 8), ("long long int", 8), ("signed long long", 8), ("signed long long int", 8),
   ("unsigned long long", 8), ("unsigned long long int", 8),
   ("float", 4), ("double", 8),
   ("int8_t", 1), ("uint8_t", 1), ("int16_t", 2), ("uint16_t", 2), ("int32_t", 4),
   ("uint32_t", 4), ("int64_t", 8), ("uint64_t", 8),
   ("__int128", 16), ("unsigned __int128", 16)]

/-- The spellings of the type `long`. -/
def longNames : List String :=
  ["long", "long int", "signed long", "signed long int", "unsigned long", "unsigned long int"]

/-- The types that have the size of a pointer. -/
def pointerSizedNames : List String := ["size_t", "ssize_t", "ptrdiff_t", "intptr_t", "uintptr_t"]

/-- The table with one size written for several names. -/
def putAll (names : List String) (size : Int) (table : SortedTable String Int) :
    SortedTable String Int :=
  names.foldl (fun t name => SortedTable.put name size t) table

/-- The primitive sizes of a data model, by name. -/
def namedSizes (long pointer longDouble wchar : Int) : SortedTable String Int :=
  let shared := sharedSizes.foldl (fun t e => SortedTable.put e.1 e.2 t) []
  let integers := putAll pointerSizedNames pointer (putAll longNames long shared)
  SortedTable.put "wchar_t" wchar (SortedTable.put "long double" longDouble integers)

/-- The size classes of a data model that aligns every size to itself. -/
def naturalAlignments : SortedTable Int Int := [(1, 1), (2, 2), (4, 4), (8, 8), (16, 16)]

/-- Long and pointers have eight bytes; bitfields share storage units. -/
def lp64 : Profile where
  name := "lp64"
  pointerWidth := 8
  primitiveSizes := namedSizes 8 8 16 4
  alignmentTable := naturalAlignments
  unitReuse := true
  fill := .lowToHigh
  packing := .unit
  alignedOverridesPack := true
  alignedWithPackedIsError := false

/-- The same data model with bitfields at the running bit position. -/
def sysvX8664 : Profile := { lp64 with name := "sysv-x86_64", packing := .bits }

/-- Int, long and pointers have four bytes, and eight byte types are aligned to four. -/
def ilp32 : Profile :=
  { lp64 with
    name := "ilp32"
    pointerWidth := 4
    primitiveSizes := namedSizes 4 4 12 4
    alignmentTable := [(1, 1), (2, 2), (4, 4), (8, 4), (16, 16)]
    packing := .bits }

/-- Pointers have eight bytes but long has four, and a storage unit holds one base type only. -/
def llp64 : Profile :=
  { lp64 with
    name := "llp64"
    primitiveSizes := namedSizes 4 8 8 2
    unitReuse := false }

/-- The built-in profiles. -/
def builtIn : List Profile := [lp64, sysvX8664, ilp32, llp64]

/-- The names of the built-in profiles, ascending. -/
def builtInNames : List String := ["ilp32", "llp64", "lp64", "sysv-x86_64"]

/-- The built-in profile of a name. -/
def named? (name : String) : Option Profile := builtIn.find? fun p => p.name == name

/-- The built-in profile of a name, or a refusal that lists them. -/
def named (name : String) : Except Failure Profile :=
  match named? name with
  | some p => .ok p
  | none => .error (.profile (.unknownName name builtInNames))

end RecordLayout.Profile
