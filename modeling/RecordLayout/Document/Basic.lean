import RecordLayout.Document.Resolve
import RecordLayout.PathName
import RecordLayout.Profile.Reader

/-!
# Documents

A document gives names to types and may choose a profile.

## Main definitions

* `Document` is a document whose names are looked up;
* `Document.ofJson` reads one;
* `Document.get` finds a type by name or by tag;
* `Document.aggregates` lists the aggregates, each once.
-/

namespace RecordLayout

/-- A document whose names are looked up. -/
structure Document where
  types : List (String × TypeNode)
  profile : Option Profile
  source : String

namespace Document

/-- A refusal. -/
def refuse {α : Type} (e : DocumentError) : Except Failure α := .error (.document e)

/-- The entries of the object that names the types. -/
def entriesOf (source : String) (types : Json.Fields) : List Entry :=
  types.map fun (name, v) =>
    ⟨name, Spec.ofJson source ["types", name] (some name) v, Spec.claimedKind? v⟩

/-- The types of all entries, in order. -/
def resolveAll (source : String) (entries : List Entry) :
    Except Failure (List (String × TypeNode)) :=
  let resolve := entries.mapM (m := ResolveM) fun e => do
    let node ← resolveEntry source entries ResolveM.fetch [] e.name
    return (e.name, node)
  resolve.run' []

/-- The profile of a document: a built-in one by name, or one that the document describes. -/
def profileOf (source : String) (v : Option Json) : Except Failure (Option Profile) :=
  match v with
  | none | some .null => .ok none
  | some (.text name) => (Profile.named name).map some
  | some (.object fields) => (Profile.ofJson (PathName.stem source) (.object fields)).map some
  | some _ => refuse (.profile source)

/-- Reads a document. -/
def ofJson (source : String) (v : Json) : Except Failure Document := do
  match v with
  | .object fields =>
    match Json.Fields.unknown ["profile", "types"] fields with
    | [] => pure ()
    | keys => refuse (.unknownTopLevel source keys)
    match Json.Fields.get? fields "types" with
    | some (.object types) =>
      let profile ← profileOf source (Json.Fields.get? fields "profile")
      let types ← resolveAll source (entriesOf source types)
      return { types, profile, source }
    | _ => refuse (.types source)
  | _ => refuse (.notAnObject source)

/-- The type of a name. -/
def find? (d : Document) (name : String) : Option TypeNode :=
  (d.types.find? fun t => t.1 == name).map (·.2)

/-- The type of a name that begins with the keyword of an aggregate and is followed by a tag. -/
def findTag? (d : Document) (name : String) : Option TypeNode :=
  match Text.dropStart? "struct " name with
  | some tag => d.find? (Text.strip tag)
  | none => (Text.dropStart? "union " name).bind fun tag => d.find? (Text.strip tag)

/-- The type of a name or tag, or a refusal that lists the names. -/
def get (d : Document) (name : String) : Except Failure TypeNode :=
  match d.find? name <|> d.findTag? name with
  | some node => .ok node
  | none => refuse (.typeMissing name d.source (d.types.map (·.1)))

/-- The aggregates of a list of types, each under the first of its names; `seen` holds the origins
of those passed already. -/
def aggregatesFrom (seen : List Origin) : List (String × TypeNode) → List (String × TypeNode)
  | [] => []
  | (name, node) :: types =>
    match node with
    | .aggregate a =>
      if seen.contains a.origin then aggregatesFrom seen types
      else (name, node) :: aggregatesFrom (a.origin :: seen) types
    | _ => aggregatesFrom seen types

/-- The aggregates of a document, each under the first of its names. -/
def aggregates (d : Document) : List (String × TypeNode) := aggregatesFrom [] d.types

end Document

end RecordLayout
