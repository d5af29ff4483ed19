import RecordLayout.Report.Entry
import RecordLayout.Text.Blank

/-!
# Text reports

A table with a line for each member.

## Main definitions

* `Report.text` is the report of one type.
-/

namespace RecordLayout.Report

/-- The four numbers of a member line, each at the right end of its column. -/
def columns (offset size alignment padding : String) : String :=
  "  " ++ Text.padStart 6 offset ++ "  " ++ Text.padStart 4 size ++ "  "
    ++ Text.padStart 5 alignment ++ "  " ++ Text.padStart 3 padding ++ "  "

/-- The bits of a bitfield, from the first to the one after the last. -/
def bitNote (bits : BitRange) : String := s!"bits {bits.offset}..{bits.offset + bits.width}"

/-- The line of a member. -/
def memberLine (m : MemberLayout) : String :=
  let label := if m.promoted then m.key ++ " (promoted)" else m.key
  let line :=
    columns (toString m.byteOffset) (toString m.size) (toString m.alignment)
        (toString m.paddingBefore)
      ++ Text.padEnd 24 label ++ " " ++ m.type.describe
  match m.bits with
  | none => Text.stripEnd line
  | some bits => Text.stripEnd (line ++ "  [" ++ bitNote bits ++ "]")

/-- The line of a suggestion that saves something. -/
def suggestionLine (s : Suggestion) : String :=
  let order := String.intercalate ", " (s.members.map fun m => nameOrAnonymous m.name)
  s!"  reorder ({order}) saves {s.bytesSaved} bytes: {s.declaredSize} -> {s.optimizedSize}"

/-- The report of one type. -/
def text (e : Entry) : String :=
  let r := e.result
  let heading :=
    s!"{e.title}  size={r.shownSize.text} align={r.alignment} padding={r.paddingBytes}"
  let table :=
    if r.members.isEmpty then []
    else (columns "offset" "size" "align" "pad" ++ "member") :: r.members.map memberLine
  let tail := if r.tailPadding = 0 then [] else [s!"  tail padding: {r.tailPadding}"]
  let suggestion := e.saving?.toList.map suggestionLine
  String.intercalate "\n" (heading :: table ++ tail ++ suggestion) ++ "\n"

end RecordLayout.Report
