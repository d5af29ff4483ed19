import RecordLayout.Diagnostics
import RecordLayout.Layout.Sequence
import RecordLayout.TypeTree.Key

/-!
# The caching engine

An engine keeps the layouts it has computed, by type and profile.  With a limit it keeps only the
most recently used ones.  Every kept layout has a serial number, which tells a layout that is served
again from one that was computed anew.

## Main definitions

* `Engine` is the state of an engine, `Engine.make` a fresh one and `Engine.clear` an emptied one;
* `EngineM` is the monad of computations that use an engine: a failure leaves the state in place;
* `Engine.serve` recalls or computes one layout;
* `Engine.layout` is the layout of a type by way of the engine.
-/

namespace RecordLayout

/-- A layout with the serial number it was kept under. -/
structure Stored where
  result : LayoutResult
  serial : Nat

/-- A kept layout. -/
structure Engine.Entry where
  node : TypeNode
  profile : Profile
  stored : Stored

/-- The state of an engine. -/
structure Engine where
  /-- The greatest number of layouts to keep, if there is one.  A negative one cannot be kept to. -/
  limit : Option Int
  /-- The channels that are asked for. -/
  channels : Channels
  /-- The kept layouts, the least recently used first. -/
  entries : List Engine.Entry
  /-- The number of layouts kept so far, which is the next serial number. -/
  issued : Nat
  /-- The notes written so far. -/
  log : Array String

/-- Computations that use an engine. -/
abbrev EngineM := ExceptT Failure (StateM Engine)

namespace Engine

/-- An engine that has kept nothing yet. -/
def make (channels : Channels) (limit : Option Int) : Engine := ⟨limit, channels, [], 0, #[]⟩

/-- The number of layouts that the engine shared by a whole program keeps. -/
def sharedLimit : Int := 4096

/-- The engine without what it kept. -/
def clear (e : Engine) : Engine := { e with entries := [] }

/-- The number of kept layouts. -/
def size (e : Engine) : Nat := e.entries.length

/-- Whether an entry is that of a type under a profile. -/
def Entry.holds (node : TypeNode) (p : Profile) (x : Entry) : Bool :=
  x.profile == p && x.node.sameKey node

/-- The entry of a type under a profile. -/
def find? (e : Engine) (node : TypeNode) (p : Profile) : Option Entry :=
  e.entries.find? (Entry.holds node p)

/-- The engine after using an entry that it has. -/
def touch (e : Engine) (x : Entry) : Engine :=
  -- Serial numbers are never used twice, so this takes out the one entry.
  { e with entries := e.entries.filter (fun y => y.stored.serial != x.stored.serial) ++ [x] }

/-- The most recently used of the entries, as many as the limit allows. -/
def withinLimit (limit : Option Int) (entries : List Entry) : List Entry :=
  match limit with
  | none => entries
  | some n => entries.drop (entries.length - n.toNat)

/-- Whether no number of layouts is within the limit. -/
def isOverdrawn (e : Engine) : Bool := e.limit.any (· < 0)

/-- The engine after keeping a layout, with the layout that is kept.  A type that has one by now
keeps that one. -/
def keep (e : Engine) (node : TypeNode) (p : Profile) (result : LayoutResult) : Stored × Engine :=
  match e.find? node p with
  | some x => (x.stored, { e with entries := withinLimit e.limit (e.touch x).entries })
  | none =>
    let stored : Stored := ⟨result, e.issued⟩
    (stored,
      { e with
        entries := withinLimit e.limit (e.entries ++ [⟨node, p, stored⟩])
        issued := e.issued + 1 })

/-- The engine after writing a note to a channel, if that is asked for. -/
def writeNote (e : Engine) (channel message : String) : Engine :=
  if e.channels.enables channel then { e with log := e.log.push (Channels.line channel message) }
  else e

/-- The engine after writing notes to a channel. -/
def writeNotes (e : Engine) (channel : String) (messages : List String) : Engine :=
  messages.foldl (fun e message => e.writeNote channel message) e

/-- A note on a look-up. -/
def lookupNote (outcome : String) (node : TypeNode) (p : Profile) : String :=
  s!"{outcome} {node.describe} ({p.name})"

/-- Recalls the layout of a type, or computes and keeps it. -/
def serve (p : Profile) (node : TypeNode) (compute : EngineM LayoutResult) : EngineM Stored := do
  if !node.isKey then throw .compositeKey
  match (← get).find? node p with
  | some x =>
    modify fun e => (e.touch x).writeNote "cache" (lookupNote "hit" node p)
    return x.stored
  | none =>
    modify fun e => e.writeNote "cache" (lookupNote "miss" node p)
    -- A failure leaves here, and nothing is kept for this type.
    let result ← compute
    -- The state is read again: the computation may have kept the layouts of inner aggregates.
    let stored ← modifyGet fun e => e.keep node p result
    -- Giving up every layout does not get an engine below zero.
    if (← get).isOverdrawn then throw .exhaustedStore
    return stored

/-- The setting in which an engine lays out aggregates. -/
def setting (p : Profile) : Setting EngineM where
  fail f := throw f
  within name x := ExceptT.adapt (Failure.push name) x
  fetch node compute := do
    let stored ← serve p node compute
    return stored.result
  note messages := modify fun e => e.writeNotes "bitfields" messages

/-- The layout of a type by way of the engine, with its serial number. -/
def serveRoot (p : Profile) (node : TypeNode) : EngineM Stored :=
  ExceptT.adapt (Failure.push node.rootName) (serve p node (node.measure (setting p) p).compute)

/-- The layout of a type by way of the engine. -/
def layout (p : Profile) (node : TypeNode) : EngineM LayoutResult := do
  let stored ← serveRoot p node
  return stored.result

/-- The setting in which a type is measured on its own: aggregates below it are roots. -/
def measuring (p : Profile) : Setting EngineM :=
  { setting p with fetch := fun node _ => layout p node }

/-- The extent of a type under a cap. -/
def extent (p : Profile) (node : TypeNode) (cap : Option Int) : EngineM Extent := do
  let natural ← (node.measure (measuring p) p).extent
  return natural.capped cap

/-- The extent of a member under the cap of its aggregate. -/
def memberExtent (p : Profile) (m : Member) (around : Option Int) : EngineM Extent := do
  let natural ← (m.type.measure (measuring p) p).extent
  (measuring p).lift (p.memberExtent m around natural)

end Engine

end RecordLayout
