import RecordLayout.Dwarf.Form

/-!
# Abbreviations

An entry is written as the number of an abbreviation and the values of its attributes.  The
abbreviation has the rest: the tag, whether children follow, and the attributes with their forms.

## Main definitions

* `Dwarf.Abbreviation` is an abbreviation;
* `Dwarf.abbreviations?` reads a table of them.
-/

namespace RecordLayout.Dwarf

/-- An abbreviation; `fields` has the codes of the attributes and their forms. -/
structure Abbreviation where
  number : Nat
  tag : Nat
  hasChildren : Bool
  fields : List (Nat × Form)
  deriving DecidableEq, Repr

/-- The next attribute and its form; two zeros end the list. -/
def readField : Octets.Reader (Option (Nat × Form)) := do
  let code ← Octets.unsignedNumber
  let formCode ← Octets.unsignedNumber
  if code = 0 && formCode = 0 then return none
  let constant ← if formCode = constantCode then Octets.signedNumber else pure 0
  match Form.ofCode? formCode constant with
  | some form => return some (code, form)
  | none => failure

/-- The attributes and their forms, at most `count` of them. -/
def readFields : Nat → Octets.Reader (List (Nat × Form))
  | 0 => failure
  | count + 1 => do
    match ← readField with
    | none => return []
    | some field => return field :: (← readFields count)

/-- The abbreviations up to the number zero, at most `count` of them. -/
def readAbbreviations : Nat → Octets.Reader (List Abbreviation)
  | 0 => failure
  | count + 1 => do
    let number ← Octets.unsignedNumber
    if number = 0 then return []
    let tag ← Octets.unsignedNumber
    let hasChildren := (← Octets.number .little 1) ≠ 0
    let fields ← readFields (← Octets.remaining)
    return ⟨number, tag, hasChildren, fields⟩ :: (← readAbbreviations count)

/-- The table that begins at an offset of a section. -/
def abbreviations? (octets : List UInt8) (offset : Nat) : Option (List Abbreviation) :=
  let table := octets.drop offset
  ((readAbbreviations (table.length + 1)).run table).map (·.1)

end RecordLayout.Dwarf
