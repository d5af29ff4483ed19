import RecordLayout.Dwarf.Basic
import RecordLayout.Failure
import RecordLayout.Text.Blank
import RecordLayout.Text.Lowercase

/-!
# Listing recorded types

## Main definitions

* `Dwarf.scan` counts the named aggregates and samples their names;
* `Dwarf.Summary.text` is the listing.
-/

namespace RecordLayout.Dwarf

/-- The named aggregates of a binary. -/
structure Summary where
  total : Nat
  /-- The number of aggregates of each tag, in the order in which the tags first appear. -/
  counts : List (String × Nat)
  /-- Tags and names, ascending. -/
  sample : List (String × String)
  deriving DecidableEq, Repr

/-- Whether a name contains a text, whatever the case of either.  An empty text is in every name. -/
def nameMatches (needle name : String) : Bool :=
  Text.occursIn (Text.lowercase needle).toList (Text.lowercase name).toList

/-- The tag and name of an aggregate that a listing shows. -/
def listed? (filter : Option String) (d : Die) : Option (String × String) :=
  if d.isAggregate then
    match d.name? with
    | none => none
    | some name => if nameMatches (filter.getD "") name then some (d.tag.text, name) else none
  else none

/-- The counts after one more aggregate of a tag. -/
def countTag (tag : String) : List (String × Nat) → List (String × Nat)
  | [] => [(tag, 1)]
  | (t, n) :: counts => if t = tag then (t, n + 1) :: counts else (t, n) :: countTag tag counts

/-- Tags and names in ascending order. -/
def beforePair (a b : String × String) : Bool :=
  decide (a.1 < b.1) || (a.1 == b.1 && decide (a.2 ≤ b.2))

/-- The named aggregates whose names contain the filter, each tag and name once, with a sample of at
most `limit` of them. -/
def scan (info : Info) (filter : Option String) (limit : Int) : Except Failure Summary :=
  if limit < 0 then .error (.request .negativeLimit)
  else
    let seen := (info.dies.filterMap (listed? filter)).eraseDups
    .ok
      { total := seen.length
        counts := seen.foldl (fun counts e => countTag e.1 counts) []
        sample := (seen.mergeSort beforePair).take limit.toNat }

/-- The counts in ascending order of the tags. -/
def Summary.sortedCounts (s : Summary) : List (String × Nat) :=
  s.counts.mergeSort fun a b => decide (a.1 ≤ b.1)

/-- The listing. -/
def Summary.text (s : Summary) : String :=
  let heading := s!"{s.total} named struct/union types found in DWARF."
  let counts := s.sortedCounts.map fun (tag, n) => s!"{tag}: {n}"
  let sample :=
    if s.sample.isEmpty then []
    else "Sample types:" :: s.sample.map fun (tag, name) => s!"{tag} {name}"
  String.intercalate "\n" (heading :: counts ++ sample) ++ "\n"

end RecordLayout.Dwarf
