import RecordLayout.Report.Declaration
import RecordLayout.Report.Entry
import RecordLayout.Number.Decimal

/-!
# Markdown reports

A summary of all types, and for each type its statistics, a table of its fields and the suggested
order.

## Main definitions

* `Report.percent` is the way ratios are shown;
* `Report.markdown` is the report of several types.
-/

namespace RecordLayout.Report

/-- A part of a whole in percent with one decimal place; nothing has the ratio `0`. -/
def percent (part whole : Int) : String :=
  if whole = 0 then "0"
  else ((Binary64.ofQuotient part.toNat whole.toNat).scale 100).fixed 1

/-- What the table of fields notes on a member. -/
def fieldNotes (m : MemberLayout) : List String :=
  (m.bits.toList.map fun b => s!"Bitfield: {b.width} bits at bit {b.offset}")
    ++ (match m.type with
        | .flexibleArray _ => ["Flexible array"]
        | _ => [])
    ++ (if m.promoted then ["Promoted from anonymous member"] else [])

/-- The row of a member in the table of fields. -/
def fieldRow (m : MemberLayout) : String :=
  let notes := String.intercalate ", " (fieldNotes m)
  s!"| `{m.key}` | `{m.type.describe}` | {m.shownSize.text} | {m.byteOffset} | {m.alignment} | "
    ++ s!"{m.paddingBefore} | {notes} |"

/-- The table of fields, which is left out when there are none. -/
def fieldTable (r : LayoutResult) : List String :=
  if r.members.isEmpty then []
  else
    ["| Field | Type | Size (B) | Offset (B) | Alignment (B) | Padding (B) | Notes |",
     "| :--- | :--- | :--- | :--- | :--- | :--- | :--- |"]
    ++ r.members.map fieldRow ++ [""]

/-- A type with the members of a struct in another order. -/
def withMembers (members : List Member) : TypeNode → TypeNode
  | .aggregate a =>
    match a.kind with
    | .struct => .aggregate { a with members }
    | .union => .aggregate a
  | node => node

/-- The section on the suggested order. -/
def suggestionSection (e : Entry) : List String :=
  match e.saving?, e.node with
  | some s, some node =>
    ["### Optimization Suggestion", "",
     s!"Reordering fields saves **{s.bytesSaved} bytes** ({s.savingRatio.fixed 1}% reduction): "
      ++ s!"{s.declaredSize} -> {s.optimizedSize} bytes.",
     "", "```c", Text.stripEnd ((withMembers s.members node).declaration e.name), "```", ""]
  | _, _ => if e.suggestion.isSome then ["No field order saves space.", ""] else []

/-- The statistics of the saving, if there is one. -/
def savingRows (e : Entry) : List String :=
  match e.saving? with
  | none => []
  | some s =>
    [s!"| Optimized Size | {s.optimizedSize} bytes |",
     s!"| Memory Saved | {s.bytesSaved} bytes ({s.savingRatio.fixed 1}%) |"]

/-- The section on one type. -/
def typeSection (e : Entry) : List String :=
  let r := e.result
  [s!"## `{e.title}`", "", "| Statistic | Value |", "| :--- | :--- |",
   s!"| Size | {r.shownSize.text} bytes |", s!"| Alignment | {r.alignment} bytes |",
   s!"| Padding Bytes | {r.paddingBytes} bytes |", s!"| Fields | {r.members.length} |",
   s!"| Padding Ratio | {percent r.paddingBytes r.size}% |"]
  ++ savingRows e ++ [""] ++ fieldTable r ++ suggestionSection e ++ ["---", ""]

/-- The summary of all types. -/
def summarySection (entries : List Entry) (title : String) : List String :=
  let bytes := (entries.map fun e => e.result.size).foldr (· + ·) 0
  let padding := (entries.map fun e => e.result.paddingBytes).foldr (· + ·) 0
  let saved := entries.map fun e => (e.suggestion.map Suggestion.bytesSaved).getD 0
  let savings := saved.foldr (· + ·) 0
  let optimizable := (entries.filter fun e => e.saving?.isSome).length
  [s!"# Struct Layout Report - {title}", "", "## Summary Statistics", "",
   "| Metric | Value |", "| :--- | :--- |",
   s!"| Types Analyzed | {entries.length} |", s!"| Total Bytes | {bytes} bytes |",
   s!"| Total Padding Bytes | {padding} bytes |", s!"| Potential Savings | {savings} bytes |",
   s!"| Optimizable Types | {optimizable} |",
   s!"| Overall Padding Ratio | {percent padding bytes}% |",
   "", "---", ""]

/-- The report of several types. -/
def markdown (entries : List Entry) (title : String) : String :=
  let lines := summarySection entries title ++ entries.flatMap typeSection
  Text.stripEnd (String.intercalate "\n" lines) ++ "\n"

end RecordLayout.Report
