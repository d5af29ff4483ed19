import RecordLayout.Layout.Engine
import RecordLayout.Layout.Reorder

/-!
# Report entries

## Main definitions

* `Report.Entry` is one type of a report: its layout and, if asked for, a suggested order;
* `Report.entries` lays out types by way of an engine.
-/

namespace RecordLayout.Report

/-- One type of a report.  A layout that is checked against a binary comes without its type. -/
structure Entry where
  name : String
  node : Option TypeNode
  result : LayoutResult
  suggestion : Option Suggestion

/-- The title of an entry: the name, after the keyword of an aggregate. -/
def Entry.title (e : Entry) : String :=
  match e.result.kind with
  | .aggregate kind => kind.keyword ++ " " ++ e.name
  | _ => e.name

/-- The suggestion, if it saves anything. -/
def Entry.saving? (e : Entry) : Option Suggestion := e.suggestion.filter Suggestion.saves

/-- The entry of a type. -/
def entry (p : Profile) (reorder : Bool) (name : String) (node : TypeNode) : EngineM Entry := do
  let result ← Engine.layout p node
  let suggestion ← if reorder then suggestReorder (Engine.layout p) node else pure none
  return ⟨name, some node, result, suggestion⟩

/-- The entries of types, all by way of one engine. -/
def entries (p : Profile) (reorder : Bool) (types : List (String × TypeNode)) :
    EngineM (List Entry) :=
  types.mapM fun (name, node) => entry p reorder name node

end RecordLayout.Report
