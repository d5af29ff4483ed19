import RecordLayout.Layout.NameTable
import RecordLayout.Report.Text

/-!
# Looking up a member

## Main definitions

* `Report.lookup` says where a member of each type lives.
-/

namespace RecordLayout.Report

/-- The line on a member of a type. -/
def lookupLine (member : String) (e : Entry) : Except Failure String :=
  match e.result.nameTable with
  | .error f => .error f
  | .ok table =>
    match NameTable.get? member table with
    | none => .error (.request (.notAMember member e.name))
    | some found =>
      let place := s!"{e.name}.{member}: offset {found.byteOffset} via {found.pathText}"
      match found.bits with
      | none => .ok place
      | some bits => .ok (place ++ ", " ++ bitNote bits)

/-- Where a member of each type lives. -/
def lookup (member : String) (es : List Entry) : Except Failure String :=
  (es.mapM (lookupLine member)).map fun lines => String.intercalate "\n" lines ++ "\n"

end RecordLayout.Report
