import RecordLayout.Dwarf.Abbreviation
import RecordLayout.Dwarf.Code

/-!
# Sections of debugging information

The entries of a binary are spread over sections: one has the units with the entries, the others
have abbreviations and texts.

## Main definitions

* `Dwarf.Sections` holds the sections;
* `Dwarf.Sections.info?` reads the entries of all units.
-/

namespace RecordLayout.Dwarf

/-- The sections that describe types; a missing one is empty. -/
structure Sections where
  order : ByteOrder
  info : List UInt8
  abbreviations : List UInt8
  texts : List UInt8
  lineTexts : List UInt8
  textOffsets : List UInt8

/-- The first part of a unit: its encoding, and the offset of its abbreviations. -/
structure UnitHeader where
  encoding : Encoding
  abbreviations : Nat

/-- The octets of a header that only some kinds of units have: a signature and, for a unit of a
single type, its place. -/
def headerExtra (kind : Nat) : Nat :=
  if kind = 2 || kind = 6 then 12 else if kind = 4 || kind = 5 then 8 else 0

/-- The header of a unit at an offset, after its length. -/
def readUnitHeader (order : ByteOrder) (start : Nat) : Octets.Reader UnitHeader := do
  let version ← Octets.number order 2
  if 5 ≤ version then
    let kind ← Octets.number order 1
    let addressSize ← Octets.number order 1
    let abbreviations ← Octets.number order offsetSize
    let _ ← Octets.take (headerExtra kind)
    return ⟨⟨order, start, version, addressSize⟩, abbreviations⟩
  else
    let abbreviations ← Octets.number order offsetSize
    let addressSize ← Octets.number order 1
    return ⟨⟨order, start, version, addressSize⟩, abbreviations⟩

/-- An entry without its children: its abbreviation and its values. -/
structure Head where
  abbreviation : Abbreviation
  values : List (Nat × Stored)

/-- What stands at an offset of a unit: the head of an entry, or the end of a list of children. -/
structure Item where
  offset : Nat
  /-- The offset of what follows. -/
  next : Nat
  head : Option Head

/-- The next head, or nothing at the end of a list of children. -/
def readHead (e : Encoding) (table : List Abbreviation) : Octets.Reader (Option Head) := do
  let number ← Octets.unsignedNumber
  if number = 0 then return none
  match table.find? fun a => a.number == number with
  | none => failure
  | some abbreviation =>
    let values ← abbreviation.fields.mapM fun (code, form) => do
      return (code, ← form.read e)
    return some ⟨abbreviation, values⟩

/-- All that stands in a unit which ends at the offset `stop`, at most `count` items.  Nothing but
the end of the unit ends the walk: entries may follow the end of a list of children, whether or not
a list was begun. -/
def readItems (e : Encoding) (table : List Abbreviation) (stop : Nat) :
    Nat → Octets.Reader (List Item)
  | 0 => return []
  | count + 1 => do
    let left ← Octets.remaining
    if left = 0 then return []
    let head ← readHead e table
    let item : Item := ⟨stop - left, stop - (← Octets.remaining), head⟩
    return item :: (← readItems e table stop count)

/-- An item whose entry has its children.  `after` is where the next entry of the same list is
looked for. -/
structure Joined where
  item : Item
  die : Option Die
  after : Nat

/-- The entries of a list of children that begins at `offset`, and the offset after its end.  Where
nothing stands at the offset of the next entry, the list ends without an end of its own. -/
def childrenFrom (offset : Nat) : List Joined → List Die × Nat
  | [] => ([], offset)
  | x :: later =>
    if x.item.offset = offset then
      match x.die with
      | none => ([], x.item.next)
      | some d =>
        let (ds, stop) := childrenFrom x.after later
        (d :: ds, stop)
    -- An entry further down, which is a child of another one.
    else childrenFrom offset later

/-- The offset that an entry gives for the entry after its children. -/
def Head.sibling? (head : Head) : Option Nat :=
  match head.values.reverse.find? fun v => v.1 == siblingCode with
  | some (_, .reference _ offset) => some offset
  | _ => none

namespace Sections

/-- The octets of a pool of texts. -/
def pool (s : Sections) : Pool → List UInt8
  | .texts => s.texts
  | .lineTexts => s.lineTexts

/-- The text at an offset of a pool. -/
def textAt (s : Sections) (pool : Pool) (offset : Nat) : List UInt8 :=
  Octets.beforeZero ((s.pool pool).drop offset)

/-- The value that is stored, where the table of texts of the unit begins at `base`. -/
def valueOf (s : Sections) (base : Nat) : Stored → Value
  | .value v => v
  | .textAt pool offset => .bytes (s.textAt pool offset)
  | .textIndex index =>
    let entry := Octets.part (base + offsetSize * index) offsetSize s.textOffsets
    .bytes (s.textAt .texts (s.order.number entry))
  | .reference written _ => .ofInt written

/-- The entry of a head at an offset with its children.  The last one of two attributes of a name
counts. -/
def dieOf (s : Sections) (e : Encoding) (base offset : Nat) (head : Head) (children : List Die) :
    Die :=
  -- Look-ups take the first match, and the last attribute of a name is to win.
  let latest := head.values.reverse
  { tag := tagLabel head.abbreviation.tag
    offset
    addressSize := e.addressSize
    hasChildren := head.abbreviation.hasChildren
    attributes := latest.filterMap fun (code, stored) =>
      (attributeName? code).map fun name => (name, s.valueOf base stored)
    type :=
      match latest.find? fun v => v.1 == typeCode with
      | some (_, .reference _ offset) => some offset
      | _ => none
    children }

/-- An item in front of all later ones of its unit, which have their children already. -/
def join (s : Sections) (e : Encoding) (base : Nat) (item : Item) (later : List Joined) :
    List Joined :=
  match item.head with
  | none => ⟨item, none, item.next⟩ :: later
  | some head =>
    if head.abbreviation.hasChildren then
      let (children, stop) := childrenFrom item.next later
      let d := s.dieOf e base item.offset head children
      -- An entry may say where the next one is, past its children.
      ⟨item, some d, head.sibling?.getD stop⟩ :: later
    else ⟨item, some (s.dieOf e base item.offset head []), item.next⟩ :: later

/-- Where the table of texts of a unit begins, by the values of its first entry. -/
def textBase (values : List (Nat × Stored)) : Nat :=
  match values.find? fun v => v.1 == textTableCode with
  | some (_, .value v) => (v.asInt?.getD 0).toNat
  | _ => 0

/-- The entries of a unit in the order in which they stand there. -/
def readUnit (s : Sections) (start stop : Nat) : Octets.Reader (List Die) := do
  let header ← readUnitHeader s.order start
  let e := header.encoding
  match abbreviations? s.abbreviations header.abbreviations with
  | none => failure
  | some table =>
    let items ← readItems e table stop (← Octets.remaining)
    let base := textBase ((items.head?.bind Item.head).elim [] Head.values)
    return (items.foldr (s.join e base) []).filterMap Joined.die

/-- The entries of the units that the octets from the offset `start` on hold, at most `count`
units. -/
def readUnits (s : Sections) (start : Nat) : Nat → List UInt8 → Option (List Die)
  | _, [] => some []
  | 0, _ => none
  | count + 1, octets => do
    let (length, rest) ← (Octets.number s.order offsetSize).run octets
    let stop := start + offsetSize + length
    let (dies, _) ← (s.readUnit start stop).run (← Octets.splitAt? length rest).1
    return dies ++ (← readUnits s stop count (rest.drop length))

/-- The entries of all units, where expressions hold addresses of a size. -/
def info? (s : Sections) (addressSize : Nat) : Option Info :=
  (s.readUnits 0 s.info.length s.info).map fun dies => ⟨s.order, addressSize, dies⟩

end Sections

end RecordLayout.Dwarf
