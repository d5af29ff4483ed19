import RecordLayout.Json.Spelling

/-!
# Why a document is refused

## Main definitions

* `DocumentError.Problem` has one constructor for each fault of a type specification;
* `DocumentError` says which document and where in it, and `DocumentError.message` is the wording.
-/

namespace RecordLayout

/-- What is wrong with one part of a document. -/
inductive DocumentError.Problem where
  | emptyTypeName
  | specKind
  | unknownKind (kind : Json)
  | typedefTarget
  | primitiveName
  /-- A primitive's `key`, its size or its alignment, is no integer. -/
  | primitiveNumber (key : String)
  | bitfieldWidth
  | bitfieldBaseMissing
  | bitfieldBaseKind
  | elementMissing (kind : String)
  | dimensions
  | dimension (value : Json)
  | packed
  | aligned
  | unknownKeys (keys : List String)
  | aggregateName
  | pack
  | members (kind : String)
  | memberKind
  | memberName
  | memberType
  /-- Two ways to shape the type of one member. -/
  | shapes (first second : String)
  | bits
  | flexible
  deriving Repr

/-- Why a document is refused. -/
inductive DocumentError where
  | badJson (source problem : String)
  | notAnObject (source : String)
  | unknownTopLevel (source : String) (keys : List String)
  | types (source : String)
  | profile (source : String)
  /-- A fault of the part of the document at `place`. -/
  | spec (source place : String) (problem : DocumentError.Problem)
  /-- The document has no type of the name asked for. -/
  | typeMissing (name source : String) (available : List String)
  deriving Repr

/-- The values that the kind of a type specification may have. -/
def DocumentError.specKinds : List String :=
  ["array", "bitfield", "flexible_array", "primitive", "struct", "typedef", "union"]

/-- The wording of a fault. -/
def DocumentError.Problem.message : DocumentError.Problem → String
  | .emptyTypeName => "empty type name"
  | .specKind => "type must be a string or an object"
  | .unknownKind kind =>
    "kind must be one of " ++ (Json.array (DocumentError.specKinds.map Json.text)).quoted
      ++ ", got " ++ kind.quoted
  | .typedefTarget => "typedef needs a 'type'"
  | .primitiveName => "primitive needs a 'name'"
  | .primitiveNumber key => s!"primitive {key} must be an integer"
  | .bitfieldWidth => "bitfield needs an integer 'width'"
  | .bitfieldBaseMissing => "bitfield needs a base type"
  | .bitfieldBaseKind => "bitfield base must be a primitive type"
  | .elementMissing kind => s!"{kind} needs an 'element'"
  | .dimensions => "dimensions must be a non-empty list"
  | .dimension value => "dimension " ++ value.quoted ++ " must be an integer"
  | .packed => "'packed' must be true or false"
  | .aligned => "'aligned' must be an integer"
  | .unknownKeys keys => "unknown key(s) " ++ String.intercalate ", " keys
  | .aggregateName => "'name' must be a string"
  | .pack => "'pack' must be an integer"
  | .members kind => s!"{kind} needs a 'members' list"
  | .memberKind => "member must be an object"
  | .memberName => "'name' must be a non-empty string or null"
  | .memberType => "member needs a 'type'"
  | .shapes first second => s!"'{first}' and '{second}' cannot be combined"
  | .bits => "'bits' must be an integer"
  | .flexible => "'flexible' must be true or false"

/-- The wording of a refusal. -/
def DocumentError.message : DocumentError → String
  | .badJson source problem => s!"{source}: invalid JSON: {problem}"
  | .notAnObject source => s!"{source}: document must be a JSON object"
  | .unknownTopLevel source keys =>
    source ++ ": unknown top-level key(s) " ++ String.intercalate ", " keys
  | .types source => s!"{source}: 'types' must be an object mapping names to types"
  | .profile source => s!"{source}: 'profile' must be a name or an object"
  | .spec source place problem => s!"{source}: {place}: {problem.message}"
  | .typeMissing name source available =>
    let names := if available.isEmpty then "none" else String.intercalate ", " available
    s!"Type '{name}' not found in {source}. Available: {names}."

end RecordLayout
