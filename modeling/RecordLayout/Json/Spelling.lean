import RecordLayout.Json.Basic
import RecordLayout.Number.Decimal
import RecordLayout.Text.Quoted

/-!
# Values in messages

How a value is spelled inside a message.  There are two spellings: the plain one shows a text as it
is, the quoted one puts it in quotes; they agree on all other values.  Inside arrays and objects
texts are always quoted.

## Main definitions

* `Json.quoted` and `Json.plain` are the two spellings.
-/

namespace RecordLayout.Json

/-- The spelling of a truth value. -/
def spellBool (b : Bool) : String := if b then "True" else "False"

mutual
/-- The spelling that tells every two values apart. -/
def quoted : Json → String
  | .null => "None"
  | .bool b => spellBool b
  | .int n => toString n
  | .float x => x.text
  | .text s => Text.quoted s
  | .array items => "[" ++ String.intercalate ", " (quotedItems items) ++ "]"
  | .object fields => "\x7b" ++ String.intercalate ", " (quotedFields fields) ++ "\x7d"

/-- The spellings of the items of an array. -/
def quotedItems : List Json → List String
  | [] => []
  | v :: vs => v.quoted :: quotedItems vs

/-- The spellings of the fields of an object. -/
def quotedFields : List (String × Json) → List String
  | [] => []
  | (k, v) :: fields => (Text.quoted k ++ ": " ++ v.quoted) :: quotedFields fields
end

/-- The spelling that shows a text as it is. -/
def plain : Json → String
  | .text s => s
  | v => v.quoted

end RecordLayout.Json
