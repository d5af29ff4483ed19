import RecordLayout.Document.Spec

/-!
# Looking up names

The entries of a document refer to one another by name.  An entry is resolved by resolving the
entries that it refers to by value; an entry that is reached again while it is being resolved
contains itself.  Each entry is resolved once: a table keeps the types of those that are resolved.

The walk is written for any monad with failures and any way to fetch the type of an entry, so that
it runs with the table and is reasoned about without it.

## Main definitions

* `Entry` is an entry of a document, and `referenceOf?` is what a spelling refers to;
* `Spec.resolve` turns a specification into a type, given a way to look up names;
* `resolveEntry` resolves an entry, given a way to fetch types;
* `ResolveM.fetch` fetches by way of the table.
-/

namespace RecordLayout

/-- A named specification of a document. -/
structure Entry where
  name : String
  spec : Spec
  /-- The kind of aggregate that the entry claims to describe, if it claims to. -/
  claims : Option AggregateKind

instance : Inhabited Entry := ⟨⟨"", default, none⟩⟩

/-- What a spelling refers to. -/
inductive Reference where
  | primitive (name : String)
  | incomplete (name : String)
  | entry (name : String)
  deriving DecidableEq, Repr

/-- What the tag of a kind of aggregate refers to: an entry that describes an aggregate of this
kind, else a type that is only declared. -/
def tagReference (entries : List Entry) (kind : AggregateKind) (text tag : String) : Reference :=
  match entries.find? fun e => e.name == tag with
  | some e => if e.claims = some kind then .entry tag else .incomplete text
  | none => .incomplete text

/-- What a normal spelling refers to; an empty one refers to nothing. -/
def referenceOf? (entries : List Entry) (text : String) : Option Reference :=
  if text = "" then none
  else if TypeName.isPointer text then some (.primitive text)
  else
    match Text.dropStart? "struct " text with
    | some tag => some (tagReference entries .struct text (Text.strip tag))
    | none =>
      match Text.dropStart? "union " text with
      | some tag => some (tagReference entries .union text (Text.strip tag))
      | none =>
        if entries.any fun e => e.name == text then some (.entry text) else some (.primitive text)

section

variable {m : Type → Type} [Monad m] [MonadExcept Failure m]

section

variable (source : String) (lookup : Place → String → m TypeNode)

mutual
/-- The type that a specification stands for. -/
def Spec.resolve : Spec → m TypeNode
  | .named place spelling => lookup place spelling
  | .primitive p => return .primitive p
  | .aggregate a => return .aggregate (← a.resolve)
  | .alias target => target.resolve
  | .shaped element shape => do
    let e ← element.resolve
    match ← MonadExcept.ofExcept shape with
    | .flexible => return .flexibleArray e
    | .dimensions dims => return .array e dims
  | .bitfield place base width => do
    match ← base.resolve with
    | .primitive p => return .bitfield p (.int width)
    | _ => throw (Spec.problem source place .bitfieldBaseKind)
  | .fault f => throw f

/-- The aggregate that a specification stands for.  Its attributes count once its members are
known. -/
def AggregateSpec.resolve : AggregateSpec → m Aggregate
  | ⟨kind, members, name, pack, attributes, place⟩ => do
    let members ← resolveMembers members
    let attributes ← MonadExcept.ofExcept attributes
    return ⟨kind, members, name, pack.map Json.int, attributes, .written place⟩

/-- The members that specifications stand for. -/
def resolveMembers : List MemberSpec → m (List Member)
  | [] => return []
  | x :: xs => do
    let y ← x.resolve
    let ys ← resolveMembers xs
    return y :: ys

/-- The member that a specification stands for.  Its attributes count once its type is known. -/
def MemberSpec.resolve : MemberSpec → m Member
  | .member type name attributes => do
    let type ← type.resolve
    let attributes ← MonadExcept.ofExcept attributes
    return ⟨type, name, attributes⟩
  | .fault f => throw f
end

end

/-- The type of a spelling; `enter` resolves the entry of a name. -/
def lookUp (source : String) (entries : List Entry) (enter : String → m TypeNode) (place : Place)
    (spelling : String) : m TypeNode :=
  match referenceOf? entries (TypeName.normalize spelling) with
  | none => throw (Spec.problem source place .emptyTypeName)
  | some (.primitive p) => return .primitive ⟨p, none, none⟩
  | some (.incomplete t) => return .incomplete (.name t)
  | some (.entry n) => enter n

/-- An entry that is reached from itself, through the entries being resolved (latest first). -/
def cycleFailure (active : List String) (name : String) : Failure :=
  .layout ⟨.containsItself (active.reverse.dropWhile (· ≠ name) ++ [name]), [name]⟩

/-- The entries that are not being resolved. -/
def pending (entries : List Entry) (active : List String) : List Entry :=
  entries.filter fun e => !active.contains e.name

/-- An entry that is about to be resolved is pending no more. -/
theorem length_pending_cons_lt {entries : List Entry} {active : List String} {name : String}
    {e : Entry} (hn : name ∉ active)
    (he : entries.find? (fun e => e.name == name) = some e) :
    (pending entries (name :: active)).length < (pending entries active).length := by
  have hname : e.name = name := by simpa using List.find?_some he
  have hsub : pending entries (name :: active)
      = (pending entries active).filter fun e => e.name != name := by
    simp only [pending, List.filter_filter]
    congr 1
    funext e
    cases h : e.name == name <;> simp_all
  rw [hsub]
  refine List.length_filter_lt_length_iff_exists.mpr ⟨e, ?_, by simp [hname]⟩
  simp only [pending, List.mem_filter]
  exact ⟨List.mem_of_find?_eq_some he, by simpa [hname] using hn⟩

/-- The type of the entry `name`, fetched by `fetch` or computed by the computation it is handed.
`active` holds the names of the entries being resolved, latest first; a name without an entry is a
primitive. -/
def resolveEntry (source : String) (entries : List Entry)
    (fetch : String → m TypeNode → m TypeNode) (active : List String) (name : String) :
    m TypeNode :=
  fetch name <|
    if hn : name ∈ active then throw (cycleFailure active name)
    else
      match he : entries.find? fun e => e.name == name with
      | none => return .primitive ⟨name, none, none⟩
      | some e =>
        -- An entry under resolution is pending no more, so the pending ones get fewer.
        have := length_pending_cons_lt hn he
        e.spec.resolve source
          (lookUp source entries (resolveEntry source entries fetch (name :: active)))
termination_by (pending entries active).length

end

/-- The types of the entries that are resolved, by name. -/
abbrev Resolved := List (String × TypeNode)

/-- Computations that resolve entries. -/
abbrev ResolveM := StateT Resolved (Except Failure)

/-- The type that the table has for a name, else the one computed, which the table keeps. -/
def ResolveM.fetch (name : String) (compute : ResolveM TypeNode) : ResolveM TypeNode := do
  match (← get).find? fun r => r.1 == name with
  | some (_, node) => return node
  | none =>
    let node ← compute
    modify fun table => (name, node) :: table
    return node

end RecordLayout
