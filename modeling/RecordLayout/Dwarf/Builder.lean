import RecordLayout.Dwarf.Basic
import RecordLayout.Failure
import RecordLayout.Text.Blank
import RecordLayout.TypeTree.Basic

/-!
# Types from debugging information

Turns the entry of a type into a type tree.  Sizes of scalars come from the entries, so that a tree
describes the data model of the binary; only alignment and packing are left to a profile.  A builder
keeps the types it has built, by offset, and knows which aggregates it is building.

## Main definitions

* `Dwarf.Builder` is the state of a builder, and `Dwarf.BuildM` the monad of its computations;
* `Dwarf.build` builds the type of an entry;
* `Dwarf.Info.findRoot` finds the entry of an aggregate by name.
-/

namespace RecordLayout.Dwarf

/-- The state of a builder. -/
structure Builder where
  /-- The types built so far, the latest first. -/
  built : List (Nat × TypeNode)
  /-- The offsets of the aggregates being built, the innermost first. -/
  building : List Nat
  /-- The notes on what has no layout. -/
  log : Array String

/-- A builder that has built nothing yet. -/
def Builder.fresh : Builder := ⟨[], [], #[]⟩

/-- The type built for the entry at an offset. -/
def Builder.find? (b : Builder) (offset : Nat) : Option TypeNode :=
  (b.built.find? fun e => e.1 == offset).map (·.2)

/-- Computations of a builder: a failure leaves what was built in place. -/
abbrev BuildM := ExceptT Failure (StateM Builder)

/-- Takes a note. -/
def note (message : String) : BuildM Unit :=
  modify fun b => { b with log := b.log.push message }

/-- A computation during which the aggregate at an offset counts as being built.  However the
computation ends, the aggregate does not count as being built any more. -/
def whileBuilding {α : Type} (offset : Nat) (x : BuildM α) : BuildM α := do
  modify fun b => { b with building := offset :: b.building }
  try x
  finally modify fun b => { b with building := b.building.erase offset }

/-- A scalar of a recorded size; without one the type is incomplete. -/
def scalarOf (name : String) (d : Die) : TypeNode :=
  match (d.attributeQuantity? "DW_AT_byte_size").filter (·.value ≠ 0) with
  | none => .incomplete (.name name)
  | some size => .primitive ⟨name, some size, none⟩

/-- A pointer has its recorded size, or that of an address of its unit. -/
def pointerOf (d : Die) : TypeNode :=
  let recorded := (d.attributeQuantity? "DW_AT_byte_size").filter (·.value ≠ 0)
  let size := recorded.getD (.int d.addressSize)
  .primitive ⟨"pointer", some size, none⟩

/-- The number of elements of one dimension: the recorded count, or one more than the recorded upper
bound. -/
def countOf? (subrange : Die) : Option Quantity :=
  match subrange.attributeQuantity? "DW_AT_count" with
  | some count => some count
  | none =>
    match subrange.attributeInt? "DW_AT_upper_bound" with
    | some upper => if 0 ≤ upper then some (.int (upper + 1)) else none
    | none => none

/-- The dimensions of an array, first to last; an open one has no count. -/
def countsOf (d : Die) : List (Option Quantity) :=
  (d.children.filter fun c => c.tag == dimensionTag).map countOf?

/-- A count that is there and not zero. -/
def givenCount? (count : Option Quantity) : Option Quantity := count.filter (·.value ≠ 0)

/-- An element type with one more dimension at the outer end. -/
def addDimension (count : Quantity) : TypeNode → TypeNode
  | .array e dims => .array e (count.constant :: dims)
  | e => .array e [count.constant]

/-- An array of an element type.  Only the first dimension may be open. -/
def arrayOf (d : Die) (element : TypeNode) : Except Failure TypeNode :=
  match countsOf d with
  | [] => .ok (.flexibleArray element)
  | first :: inner =>
    match inner.mapM givenCount? with
    | none => .error (.ofCause (.variableInnerDimension d.offset))
    | some dims =>
      -- The inner dimensions make an array of their own; the outermost one then joins it.
      let element := if dims.isEmpty then element else .array element (dims.map Quantity.constant)
      match givenCount? first with
      | none => .ok (.flexibleArray element)
      | some count => .ok (addDimension count element)

/-- The attributes of an entry: its recorded alignment, if that asks for anything. -/
def attributesOf (d : Die) : Attributes :=
  match d.attributeInt? "DW_AT_alignment" with
  | some n => if 1 < n then Attributes.none.withAligned n else .none
  | none => .none

/-- The kind of aggregate of a tag. -/
def aggregateKindOf (tag : Label) : AggregateKind := if tag = unionTag then .union else .struct

/-- The name of a type that is only declared. -/
def declaredName (d : Die) : String :=
  let keyword := (aggregateKindOf d.tag).keyword
  match d.name? with
  | some name => keyword ++ " " ++ name
  | none => keyword

section

variable (info : Info) (recur : Option Die → BuildM TypeNode)

/-- Lifts a check. -/
def check {α : Type} : Except Failure α → BuildM α
  | .ok a => pure a
  | .error f => throw f

/-- A member of an aggregate. -/
def buildMember (d : Die) : BuildM Member := do
  let type ← recur (info.typeOf? d)
  match d.attributeQuantity? "DW_AT_bit_size" with
  | none => return ⟨type, d.name?, attributesOf d⟩
  | some width =>
    match type with
    | .primitive p => return ⟨.bitfield p width.constant, d.name?, attributesOf d⟩
    | _ => throw (.ofCause (.bitfieldBase d.name?))

/-- The members among the children of an aggregate of this name. -/
def buildMembers (name : Option String) : List Die → BuildM (List Member)
  | [] => return []
  | c :: cs => do
    if c.tag = baseClassTag then
      -- The note begins with the name of the aggregate, and says so when there is none.
      note (name.getD "None" ++ ": base class subobjects are not modelled")
      buildMembers name cs
    else if c.isMember then
      let m ← buildMember info recur c
      let ms ← buildMembers name cs
      return m :: ms
    else buildMembers name cs

/-- An aggregate.  One that is being built already contains itself. -/
def buildAggregate (d : Die) : BuildM TypeNode := do
  if d.isDeclaration then return .incomplete (.name (declaredName d))
  if (← get).building.contains d.offset then throw (.ofCause (.recordedCycle d.name?))
  let members ← whileBuilding d.offset (buildMembers info recur d.name? d.children)
  return .aggregate
    { kind := aggregateKindOf d.tag
      members
      name := d.name?
      pack := none
      attributes := attributesOf d
      origin := .recorded d.offset }

/-- The type of an entry, where `recur` builds the types that it refers to. -/
def buildEntry (d : Die) : BuildM TypeNode := do
  if isAliasTag d.tag then recur (info.typeOf? d)
  else if d.tag = baseTag then return scalarOf (d.name?.getD "void") d
  else if d.tag = enumerationTag then
    return scalarOf ("enum " ++ d.name?.getD "<anonymous>") d
  else if isPointerTag d.tag then return pointerOf d
  else if d.tag = arrayTag then
    let element ← recur (info.typeOf? d)
    check (arrayOf d element)
  else if d.isAggregate then buildAggregate info recur d
  else
    note s!"{d.tag.text} at 0x{Text.hexadecimal d.offset} has no layout, treating as opaque"
    return .incomplete ((d.name?.map Label.name).getD d.tag)

end

/-- The type of an entry; a missing entry stands for no type.  References are followed at most
`depth` deep. -/
def buildTo (info : Info) : Nat → Option Die → BuildM TypeNode
  | _, none => return .incomplete (.name "void")
  | 0, some _ => throw .endlessReference
  | depth + 1, some d => do
    let d := info.canonical d
    match (← get).find? d.offset with
    | some node => return node
    | none =>
      -- Only a type that is built to the end is remembered.
      let node ← buildEntry info (buildTo info depth) d
      modify fun b => { b with built := (d.offset, node) :: b.built }
      return node

/-- A depth that no chain of references reaches unless it runs in a circle. -/
def depthBound (info : Info) : Nat := 2 * info.dies.length + 2

/-- The type of an entry. -/
def build (info : Info) (d : Option Die) : BuildM TypeNode :=
  buildTo info (depthBound info) d

/-- The keywords in front of a name that asks for one tag only. -/
def tagKeywords : List (String × Label) :=
  [("struct ", structTag), ("union ", unionTag), ("class ", classTag)]

/-- The name that is asked for and the tags that may answer, in order. -/
def wantedTags (typeName : String) : String × List Label :=
  let name := Text.strip typeName
  match tagKeywords.findSome? fun k => (Text.dropStart? k.1 name).map fun rest => (rest, k.2) with
  | some (rest, tag) => (Text.strip rest, [tag])
  | none => (name, [structTag, classTag, unionTag, typedefTag])

/-- The aggregate behind the best entry of a name and a tag. -/
def Info.aggregateNamed? (info : Info) (name : String) (tag : Label) : Option Die :=
  match info.best? name tag with
  | none => none
  | some d =>
    if tag = typedefTag then (info.behindAliases (some d)).filter Die.isAggregate else some d

/-- The entry of an aggregate by name; a keyword in front of the name asks for one tag only. -/
def Info.findRoot (info : Info) (typeName : String) : Except Failure Die :=
  let (name, tags) := wantedTags typeName
  if !info.hasName name then .error (.request (.typeNotRecorded typeName))
  else
    match tags.findSome? (info.aggregateNamed? name) with
    | some d => .ok d
    | none => .error (.request (.notAnAggregate typeName))

end RecordLayout.Dwarf
