import RecordLayout.Json.Spelling

/-!
# Why a profile is refused

## Main definitions

* `ProfileError` has one constructor for each reason, and `ProfileError.message` is the wording.
-/

namespace RecordLayout

/-- Why a profile is refused. -/
inductive ProfileError where
  /-- No built-in profile has this name. -/
  | unknownName (name : String) (available : List String)
  | notAnObject
  | unknownOptions (names : List String)
  /-- An option whose value is not of the kind that it needs. -/
  | optionKind (option kind : String)
  | sizesNotAnObject
  | size (name : String)
  | tableNotAnObject
  | tableKey (key : String)
  | tableAlignment (key : String)
  | pointerWidth (profile : String) (width : Int)
  /-- An option with a value that is none of those it allows. -/
  | optionChoice (profile option : String) (choices : List String)
  | alignmentNotPowerOfTwo (profile : String) (alignment sizeClass : Int)
  /-- A profile file that is not written in JSON. -/
  | badJson (path problem : String)
  deriving DecidableEq, Repr

/-- The wording of a refusal. -/
def ProfileError.message : ProfileError → String
  | .unknownName name available =>
    "Unknown ABI profile '" ++ name ++ "'. Available: " ++ String.intercalate ", " available ++ "."
  | .notAnObject => "profile must be a JSON object"
  | .unknownOptions names => "unknown profile option(s): " ++ String.intercalate ", " names
  | .optionKind option kind => s!"profile option {option} must be of type {kind}"
  | .sizesNotAnObject => "primitive_sizes must map type names to byte sizes"
  | .size name => "primitive_sizes[" ++ Text.quoted name ++ "] must be a positive integer"
  | .tableNotAnObject => "primitive_alignment_table must map size classes to alignments"
  | .tableKey key => "primitive_alignment_table key " ++ Text.quoted key ++ " is not an integer"
  | .tableAlignment key =>
    "primitive_alignment_table[" ++ Text.quoted key ++ "] must be an integer"
  | .pointerWidth profile width => s!"profile {profile}: unsupported pointer width {width}"
  | .optionChoice profile option choices =>
    "profile " ++ profile ++ ": " ++ option ++ " must be one of "
      ++ (Json.array (choices.map Json.text)).quoted
  | .alignmentNotPowerOfTwo profile alignment sizeClass =>
    s!"profile {profile}: alignment {alignment} for size {sizeClass} is not a power of two"
  | .badJson path problem => s!"{path}: invalid JSON: {problem}"

end RecordLayout
