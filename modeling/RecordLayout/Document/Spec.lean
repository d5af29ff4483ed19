import RecordLayout.Failure
import RecordLayout.TypeName
import RecordLayout.TypeTree.Basic

/-!
# Type specifications

What a document says about a type before names are looked up: names stay spellings, and a fault
stays at its place, to be reported when the walk over the specification reaches it.

## Main definitions

* `Spec`, `AggregateSpec` and `MemberSpec` are the specifications;
* `Place` is a place in a document;
* `Spec.ofJson` reads a specification.
-/

namespace RecordLayout

/-- A place in a document, by the segments that lead to it. -/
abbrev Place := List String

/-- A place as text. -/
def Place.text (p : Place) : String := String.intercalate "." p

/-- The place of an item of a list. -/
def Place.item (p : Place) (list : String) (index : Nat) : Place :=
  p ++ [list ++ "[" ++ toString index ++ "]"]

/-- What makes an array of an element type. -/
inductive Shape where
  | flexible
  | dimensions (dims : List Json)
  deriving Repr, Inhabited

mutual
/-- A type specification. -/
inductive Spec where
  /-- A type given by a spelling of its name. -/
  | named (place : Place) (spelling : String)
  | primitive (p : Primitive)
  | aggregate (a : AggregateSpec)
  /-- Another name for a type. -/
  | alias (target : Spec)
  /-- An array; its shape counts only once the element is known. -/
  | shaped (element : Spec) (shape : Except Failure Shape)
  /-- A bitfield, whose base must turn out to be a primitive; the place is that of the base. -/
  | bitfield (place : Place) (base : Spec) (width : Int)
  /-- A part of the document that is no type specification. -/
  | fault (f : Failure)

/-- The specification of an aggregate. -/
structure AggregateSpec where
  kind : AggregateKind
  members : List MemberSpec
  name : Option String
  pack : Option Int
  attributes : Except Failure Attributes
  place : Place

/-- The specification of a member. -/
inductive MemberSpec where
  | member (type : Spec) (name : Option String) (attributes : Except Failure Attributes)
  | fault (f : Failure)
end

instance : Inhabited Spec := ⟨.named [] ""⟩

namespace Spec

/-- A fault at a place in the document of this source. -/
def problem (source : String) (place : Place) (p : DocumentError.Problem) : Failure :=
  Failure.ofProblem source place.text p

/-- The keys of an aggregate. -/
def aggregateKeys : List String := ["kind", "name", "members", "pack", "packed", "aligned"]

/-- The keys of a member. -/
def memberKeys : List String := ["name", "type", "bits", "dims", "flexible", "packed", "aligned"]

/-- The keys that shape the type of a member. -/
def shapeKeys : List String := ["bits", "dims", "flexible"]

/-- A field that is absent or null counts as not given. -/
def given? (fields : Json.Fields) (key : String) : Option Json :=
  match Json.Fields.get? fields key with
  | some .null => none
  | v => v

/-- The kind of aggregate of a keyword. -/
def aggregateKind? (keyword : String) : Option AggregateKind :=
  if keyword = "struct" then some .struct else if keyword = "union" then some .union else none

/-- The kind of aggregate that a value claims to describe. -/
def claimedKind? (v : Json) : Option AggregateKind :=
  match v with
  | .object fields =>
    match Json.Fields.get? fields "kind" with
    | some (.text keyword) => aggregateKind? keyword
    | _ => none
  | _ => none

/-- The attributes of an aggregate or a member. -/
def attributesOf (source : String) (place : Place) (fields : Json.Fields) :
    Except Failure Attributes := do
  let packed ←
    match Json.Fields.get? fields "packed" with
    | none => pure false
    | some (.bool b) => pure b
    | some _ => throw (problem source place .packed)
  let attributes := if packed then Attributes.none.withPacked else Attributes.none
  match Json.Fields.get? fields "aligned" with
  | none => return attributes
  | some (.int n) => return attributes.withAligned n
  | some _ => throw (problem source place .aligned)

/-- Dimensions are whole numbers or texts; a text stands for a dimension that is no constant. -/
def checkDimensions (source : String) (place : Place) : List Json → Except Failure Unit
  | [] => .ok ()
  | d :: ds =>
    match d with
    | .int _ | .text _ => checkDimensions source place ds
    | _ => .error (problem source place (.dimension d))

/-- The dimensions of an array. -/
def dimensionsOf (source : String) (place : Place) (v : Option Json) : Except Failure Shape :=
  match v with
  | some (.array (d :: ds)) =>
    (checkDimensions source place (d :: ds)).map fun _ => .dimensions (d :: ds)
  | _ => .error (problem source place .dimensions)

/-- A size or alignment of a primitive, which may be missing. -/
def primitiveNumber (source : String) (place : Place) (fields : Json.Fields) (key : String) :
    Except Failure (Option Int) :=
  match given? fields key with
  | none => .ok none
  | some (.int n) => .ok (some n)
  | some _ => .error (problem source place (.primitiveNumber key))

/-- A primitive; `defaultName` is its name unless it has one. -/
def primitiveOf (source : String) (place : Place) (defaultName : Option String)
    (fields : Json.Fields) : Except Failure Primitive := do
  let name :=
    match Json.Fields.get? fields "name" with
    | none => defaultName
    | some v => v.asText?
  match nonemptyName? name with
  | none => throw (problem source place .primitiveName)
  | some name =>
    let size ← primitiveNumber source place fields "size"
    let alignment ← primitiveNumber source place fields "alignment"
    return ⟨TypeName.normalize name, size.map .int, alignment.map .int⟩

/-- The name of an aggregate; a name that is null is no name. -/
def aggregateName (source : String) (place : Place) (defaultName : Option String)
    (fields : Json.Fields) : Except Failure (Option String) :=
  match Json.Fields.get? fields "name" with
  | none => .ok defaultName
  | some .null => .ok none
  | some (.text s) => .ok (some s)
  | some _ => .error (problem source place .aggregateName)

/-- The pack of an aggregate. -/
def packOf (source : String) (place : Place) (fields : Json.Fields) :
    Except Failure (Option Int) :=
  match given? fields "pack" with
  | none => .ok none
  | some (.int n) => .ok (some n)
  | some _ => .error (problem source place .pack)

/-- What an aggregate says besides its members. -/
def aggregateHead (source : String) (place : Place) (defaultName : Option String)
    (fields : Json.Fields) : Except Failure (Option String × Option Int) := do
  match Json.Fields.unknown aggregateKeys fields with
  | [] => pure ()
  | keys => throw (problem source place (.unknownKeys keys))
  let name ← aggregateName source place defaultName fields
  let pack ← packOf source place fields
  return (name, pack)

/-- What a member says besides its type; at most one key may shape the type. -/
def memberHead (source : String) (place : Place) (fields : Json.Fields) :
    Except Failure (Option String) := do
  match Json.Fields.unknown memberKeys fields with
  | [] => pure ()
  | keys => throw (problem source place (.unknownKeys keys))
  let name ←
    match given? fields "name" with
    | none => pure none
    | some (.text s) =>
      if s = "" then throw (problem source place .memberName) else pure (some s)
    | some _ => throw (problem source place .memberName)
  if !Json.Fields.has fields "type" then throw (problem source place .memberType)
  match shapeKeys.filter (Json.Fields.has fields) with
  | first :: second :: _ => throw (problem source place (.shapes first second))
  | _ => return name

/-- The type of a member that is no bitfield, in the shape that the member gives it. -/
def shapedMember (source : String) (place : Place) (fields : Json.Fields) (type : Spec) : Spec :=
  match Json.Fields.get? fields "dims" with
  | some dims => .shaped type (dimensionsOf source (place ++ ["dims"]) (some dims))
  | none =>
    match Json.Fields.get? fields "flexible" with
    | none | some (.bool false) => type
    | some (.bool true) => .shaped type (.ok .flexible)
    | some _ => .shaped type (.error (problem source place .flexible))

/-- The values that the kind of a specification may have. -/
def kindOf (source : String) (place : Place) (fields : Json.Fields) : Except Failure String :=
  let kind := (Json.Fields.get? fields "kind").getD .null
  -- A list or an object is refused before it is compared with the known kinds.
  if kind.isComposite then .error .compositeKey
  else
    match kind with
    | .text s =>
      if DocumentError.specKinds.contains s then .ok s
      else .error (problem source place (.unknownKind kind))
    | _ => .error (problem source place (.unknownKind kind))

mutual
/-- Reads a type specification at a place; `defaultName` is the name of an aggregate or a primitive
that has none. -/
def ofJson (source : String) (place : Place) (defaultName : Option String) (v : Json) : Spec :=
  match v with
  | .text spelling => .named place spelling
  | .object fields =>
    match kindOf source place fields with
    | .error f => .fault f
    | .ok kind =>
      match aggregateKind? kind with
      | some kind =>
        match aggregateHead source place defaultName fields with
        | .error f => .fault f
        | .ok (name, pack) =>
          match h : Json.Fields.get? fields "members" with
          | some (.array items) =>
            -- The members are part of a value of a field, hence smaller than the fields.
            have : sizeOf items < sizeOf fields := by
              have h₁ := Json.Fields.sizeOf_lt_of_get? h
              have h₂ : sizeOf (Json.array items) = 1 + sizeOf items := by simp
              omega
            .aggregate
              { kind
                members := membersOfJson source place 0 items
                name
                pack
                attributes := attributesOf source place fields
                place }
          | _ => .fault (problem source place (.members kind.keyword))
      | none =>
        if kind = "typedef" then
          match h : Json.Fields.get? fields "type" with
          | none => .fault (problem source place .typedefTarget)
          | some target =>
            have := Json.Fields.sizeOf_lt_of_get? h
            .alias (ofJson source (place ++ ["type"]) none target)
        else if kind = "primitive" then
          match primitiveOf source place defaultName fields with
          | .error f => .fault f
          | .ok p => .primitive p
        else if kind = "bitfield" then
          match Json.Fields.get? fields "width" with
          | some (.int width) =>
            match h : Json.Fields.get? fields "base" with
            | none | some .null => .fault (problem source (place ++ ["base"]) .bitfieldBaseMissing)
            | some base =>
              have := Json.Fields.sizeOf_lt_of_get? h
              .bitfield (place ++ ["base"]) (ofJson source (place ++ ["base"]) none base) width
          | _ => .fault (problem source place .bitfieldWidth)
        else
          match h : Json.Fields.get? fields "element" with
          | none => .fault (problem source place (.elementMissing kind))
          | some element =>
            have := Json.Fields.sizeOf_lt_of_get? h
            .shaped (ofJson source (place ++ ["element"]) none element)
              (if kind = "flexible_array" then .ok .flexible
               else
                dimensionsOf source (place ++ ["dimensions"])
                  (Json.Fields.get? fields "dimensions"))
  | _ => .fault (problem source place .specKind)
termination_by sizeOf v

/-- Reads the members of an aggregate, the first of which has position `index`. -/
def membersOfJson (source : String) (place : Place) (index : Nat) (items : List Json) :
    List MemberSpec :=
  match items with
  | [] => []
  | item :: items =>
    memberOfJson source (place.item "members" index) item
      :: membersOfJson source place (index + 1) items
termination_by sizeOf items

/-- Reads a member. -/
def memberOfJson (source : String) (place : Place) (v : Json) : MemberSpec :=
  match v with
  | .object fields =>
    match memberHead source place fields with
    | .error f => .fault f
    | .ok name =>
      match h : Json.Fields.get? fields "type" with
      | none => .fault (problem source place .memberType)
      | some type =>
        have := Json.Fields.sizeOf_lt_of_get? h
        let attributes := attributesOf source place fields
        let typePlace := place ++ ["type"]
        match Json.Fields.get? fields "bits" with
        | none =>
          .member (shapedMember source place fields (ofJson source typePlace none type)) name
            attributes
        | some (.int width) =>
          match type with
          | .null => .fault (problem source typePlace .bitfieldBaseMissing)
          | base => .member (.bitfield typePlace (ofJson source typePlace none base) width) name
              attributes
        | some _ => .fault (problem source place .bits)
  | _ => .fault (problem source place .memberKind)
termination_by sizeOf v
end

end Spec

end RecordLayout
