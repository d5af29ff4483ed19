import RecordLayout.Json.Writer
import RecordLayout.Profile.Basic
import RecordLayout.Report.Entry

/-!
# JSON reports

## Main definitions

* `LayoutResult.toJson` and `MemberLayout.toJson` are layouts as values, nested ones included;
* `Report.json` is the report of several types.
-/

namespace RecordLayout

/-- The fields of a member that do not depend on the members below it. -/
def memberFields (key : String) (type : TypeNode) (byteOffset : Int) (size : Quantity)
    (alignment padding : Int) (bits : Option BitRange) (promoted : Bool) : Json.Fields :=
  [("name", .text key), ("type", .text type.describe), ("offset", .int byteOffset),
   ("size", size.constant), ("alignment", .int alignment), ("padding_before", .int padding)]
  ++ (match bits with
      | none => []
      | some b => [("bit_offset", .int b.offset), ("bit_width", .int b.width)])
  ++ (if promoted then [("promoted", .bool true)] else [])

mutual
/-- A layout as a value. -/
def LayoutResult.toJson : LayoutResult → Json
  | ⟨kind, name, size, alignment, members, tailPadding, sizeIsFlag⟩ =>
    let r : LayoutResult := ⟨kind, name, size, alignment, members, tailPadding, sizeIsFlag⟩
    .object
      [("kind", .text kind.label), ("name", (name.map Json.text).getD .null),
       ("size", r.shownSize.constant), ("alignment", .int alignment),
       ("padding_bytes", .int r.paddingBytes), ("members", .array (membersToJson members))]

/-- Members as values. -/
def membersToJson : List MemberLayout → List Json
  | [] => []
  | x :: xs => x.toJson :: membersToJson xs

/-- A member as a value; a layout without members adds nothing. -/
def MemberLayout.toJson : MemberLayout → Json
  | ⟨key, _, type, byteOffset, size, alignment, bits, padding, promoted, layout, sizeIsFlag⟩ =>
    .object
      (memberFields key type byteOffset (.shown size sizeIsFlag) alignment padding bits promoted
        ++ nestedToJson layout)

/-- The members below a member as a field. -/
def nestedToJson : Option LayoutResult → List (String × Json)
  | none => []
  | some ⟨_, _, _, _, members, _, _⟩ =>
    match membersToJson members with
    | [] => []
    | items => [("members", .array items)]
end

namespace Report

/-- A suggestion as a value. -/
def suggestionJson (s : Suggestion) : Json :=
  .object
    [("members", .array (s.members.map fun m => (m.name.map Json.text).getD .null)),
     ("optimized_size", .int s.optimizedSize), ("bytes_saved", .int s.bytesSaved)]

/-- An entry as a value. -/
def entryJson (e : Entry) : Json :=
  match e.result.toJson with
  | .object fields =>
    .object
      (Json.Fields.put fields "name" (.text e.name)
        ++ e.suggestion.toList.map fun s => ("reorder", suggestionJson s))
  | v => v

/-- The report of several types. -/
def json (entries : List Entry) (p : Profile) : String :=
  (Json.object [("profile", .text p.name), ("types", .array (entries.map entryJson))]).indented
    ++ "\n"

end Report

end RecordLayout
