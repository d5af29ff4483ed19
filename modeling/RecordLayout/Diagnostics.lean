import RecordLayout.Text.Blank

/-!
# Diagnostic channels

Notes about the inner workings of a layout go to named channels, which are silent unless they are
asked for.

## Main definitions

* `Channels` is a set of channel names, and `Channels.parse` reads one;
* `Channels.enables` says whether a channel is asked for;
* `Channels.line` is a note as it is written.
-/

namespace RecordLayout

/-- A set of channel names. -/
abbrev Channels := List String

namespace Channels

/-- The names in a list that is separated by commas: blanks around a name do not count, and neither
do empty names and repetitions.  The names are ascending. -/
def parse (s : String) : Channels :=
  let names := (Text.splitAt ',' s.toList).map fun cs => Text.strip (String.ofList cs)
  ((names.filter (· ≠ "")).eraseDups).mergeSort fun a b => decide (a ≤ b)

/-- A channel is asked for by its own name or by `all`. -/
def enables (cs : Channels) (channel : String) : Bool :=
  cs.contains channel || cs.contains "all"

/-- A note as it is written. -/
def line (channel message : String) : String := s!"[bytewise:{channel}] {message}\n"

end Channels

end RecordLayout
