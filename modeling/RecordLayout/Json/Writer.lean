import RecordLayout.Json.Basic
import RecordLayout.Number.Decimal
import RecordLayout.Text.Numeral

/-!
# Writing JSON

Two written forms of a value: one line, with a blank after each comma and colon, and the indented
form of reports.  Both use ASCII only; any other character is escaped by its 16 bit units.

## Main definitions

* `Json.oneLine` writes a value on one line;
* `Json.indented` writes a value with two blanks for each level.
-/

namespace RecordLayout.Json

/-- One 16 bit unit as an escape. -/
def escapeUnit (n : Nat) : String := "\\u" ++ Text.hexadecimalPadded 4 n

/-- One character inside a written text. -/
def writeChar (c : Char) : String :=
  if c = '"' then "\\\""
  else if c = '\\' then "\\\\"
  else if c = '\n' then "\\n"
  else if c = '\r' then "\\r"
  else if c = '\t' then "\\t"
  else if c.toNat = 8 then "\\b"
  else if c.toNat = 12 then "\\f"
  else if 0x20 ≤ c.toNat && c.toNat < 0x7f then String.singleton c
  else if c.toNat < 0x10000 then escapeUnit c.toNat
  else
    let n := c.toNat - 0x10000
    escapeUnit (0xd800 + n / 0x400) ++ escapeUnit (0xdc00 + n % 0x400)

/-- A text between double quotes. -/
def writeText (s : String) : String :=
  "\"" ++ String.join (s.toList.map writeChar) ++ "\""

/-- A floating point number; what is no finite number is written by name. -/
def writeFloat : Binary64 → String
  | .nan => "NaN"
  | .infinity negative => if negative then "-Infinity" else "Infinity"
  | x => x.text

/-- A value that holds no other values. -/
def writeScalar : Json → String
  | .null => "null"
  | .bool b => if b then "true" else "false"
  | .int n => toString n
  | .float x => writeFloat x
  | .text s => writeText s
  | .array _ => "[]"
  | .object _ => "\x7b\x7d"

mutual
/-- A value on one line. -/
def oneLine : Json → String
  | .array items => "[" ++ String.intercalate ", " (oneLineItems items) ++ "]"
  | .object fields => "\x7b" ++ String.intercalate ", " (oneLineFields fields) ++ "\x7d"
  | v => v.writeScalar

/-- The items of an array, each on one line. -/
def oneLineItems : List Json → List String
  | [] => []
  | v :: vs => v.oneLine :: oneLineItems vs

/-- The fields of an object, each on one line. -/
def oneLineFields : List (String × Json) → List String
  | [] => []
  | (k, v) :: fields => (writeText k ++ ": " ++ v.oneLine) :: oneLineFields fields
end

/-- The start of a line at a level of indentation. -/
def newLine (level : Nat) : String := "\n" ++ String.ofList (List.replicate (2 * level) ' ')

mutual
/-- A value in the indented form, where `level` counts the values around it. -/
def indentedAt (level : Nat) : Json → String
  | .array (v :: vs) =>
    "[" ++ newLine (level + 1)
      ++ String.intercalate ("," ++ newLine (level + 1)) (indentedItems (level + 1) (v :: vs))
      ++ newLine level ++ "]"
  | .object (f :: fs) =>
    "\x7b" ++ newLine (level + 1)
      ++ String.intercalate ("," ++ newLine (level + 1)) (indentedFields (level + 1) (f :: fs))
      ++ newLine level ++ "\x7d"
  | v => v.writeScalar

/-- The items of an array in the indented form. -/
def indentedItems (level : Nat) : List Json → List String
  | [] => []
  | v :: vs => v.indentedAt level :: indentedItems level vs

/-- The fields of an object in the indented form. -/
def indentedFields (level : Nat) : List (String × Json) → List String
  | [] => []
  | (k, v) :: fields => (writeText k ++ ": " ++ v.indentedAt level) :: indentedFields level fields
end

/-- A value in the indented form. -/
def indented (v : Json) : String := v.indentedAt 0

end RecordLayout.Json
