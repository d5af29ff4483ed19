import RecordLayout.Json.Basic
import RecordLayout.Text.Blank

/-!
# Reading JSON

A reader that says where and why a text is no value.  Each part of it returns the rest of the text
together with a proof that the rest is shorter, which is why reading ends.

Beyond the standard the names `NaN`, `Infinity` and `-Infinity` are values.  A field that is
written twice keeps its first place and its last value.

## Main definitions

* `Json.read` reads a whole text;
* `Json.Reader.Fault` is a failure, and `Json.Reader.Fault.message` its wording, with the line, the
  column and the offset of the place.
-/

namespace RecordLayout.Json

namespace Reader

/-- Why a text is no value. -/
inductive Problem where
  | byteOrderMark
  | value
  | extraText
  | fieldName
  | colon
  | comma
  | controlCharacter
  | escape
  | unicodeEscape
  | unterminated
  deriving DecidableEq, Repr

/-- The wording of a problem. -/
def Problem.message : Problem → String
  | .byteOrderMark => "Unexpected UTF-8 BOM (decode using utf-8-sig)"
  | .value => "Expecting value"
  | .extraText => "Extra data"
  | .fieldName => "Expecting property name enclosed in double quotes"
  | .colon => "Expecting ':' delimiter"
  | .comma => "Expecting ',' delimiter"
  | .controlCharacter => "Invalid control character at"
  | .escape => "Invalid \\escape"
  | .unicodeEscape => "Invalid \\uXXXX escape"
  | .unterminated => "Unterminated string starting at"

/-- A problem and the offset of its place, in characters. -/
structure Fault where
  problem : Problem
  offset : Nat
  deriving DecidableEq, Repr

/-- The wording of a failure to read `text`: lines and columns count from one. -/
def Fault.message (f : Fault) (text : List Char) : String :=
  let before := text.take f.offset
  let line := before.count '\n' + 1
  let column := (before.reverse.takeWhile (· ≠ '\n')).length + 1
  s!"{f.problem.message}: line {line} column {column} (char {f.offset})"

/-- A place in a text: what has been passed, as a count, and what is left. -/
structure Cursor where
  offset : Nat
  rest : List Char

/-- The number of characters that are left. -/
def Cursor.size (c : Cursor) : Nat := c.rest.length

/-- The characters that may stand between the parts of a value. -/
def isSpace (c : Char) : Bool := c = ' ' || c = '\t' || c = '\n' || c = '\r'

/-- The place after the spaces. -/
def skipSpaces (offset : Nat) : List Char → Cursor
  | [] => ⟨offset, []⟩
  | c :: cs => if isSpace c then skipSpaces (offset + 1) cs else ⟨offset, c :: cs⟩

/-- The place after the spaces. -/
def Cursor.skip (c : Cursor) : Cursor := skipSpaces c.offset c.rest

theorem size_skipSpaces_le (offset : Nat) (cs : List Char) :
    (skipSpaces offset cs).size ≤ cs.length := by
  induction cs generalizing offset with
  | nil => simp [skipSpaces, Cursor.size]
  | cons c cs ih =>
    unfold skipSpaces
    split
    · exact Nat.le_succ_of_le (ih _)
    · simp [Cursor.size]

theorem Cursor.size_skip_le (c : Cursor) : c.skip.size ≤ c.size :=
  size_skipSpaces_le c.offset c.rest

/-- The value of a hexadecimal digit. -/
def hexDigit? (c : Char) : Option Nat :=
  if '0' ≤ c && c ≤ '9' then some (c.toNat - '0'.toNat)
  else if 'a' ≤ c && c ≤ 'f' then some (c.toNat - 'a'.toNat + 10)
  else if 'A' ≤ c && c ≤ 'F' then some (c.toNat - 'A'.toNat + 10)
  else none

/-- The unit that four hexadecimal digits stand for. -/
def unit? : List Char → Option Nat
  | a :: b :: c :: d :: _ => do
    let a ← hexDigit? a
    let b ← hexDigit? b
    let c ← hexDigit? c
    let d ← hexDigit? d
    return ((a * 16 + b) * 16 + c) * 16 + d
  | _ => none

/-- A character from its units: a high unit needs a low one, and a unit that stands alone becomes
the replacement character. -/
def charOfUnit (n : Nat) : Char :=
  if 0xd800 ≤ n && n < 0xe000 then Char.ofNat 0xfffd else Char.ofNat n

/-- The character of an escape that starts with `u`, and how many characters of `digits` it takes.
`offset` is the place of the backslash; text must follow the digits. -/
def unicodeEscape (offset : Nat) (digits : List Char) : Except Fault (Char × Nat) :=
  if (digits.drop 4).isEmpty then .error ⟨.unicodeEscape, offset + 1⟩
  else
    match unit? digits with
    | none => .error ⟨.unicodeEscape, offset + 1⟩
    | some high =>
      let second := digits.drop 4
      if 0xd800 ≤ high && high < 0xdc00 && !(second.drop 6).isEmpty
          && second.take 2 == ['\\', 'u'] then
        match unit? (second.drop 2) with
        | none => .error ⟨.unicodeEscape, offset + 7⟩
        | some low =>
          if 0xdc00 ≤ low && low < 0xe000 then
            .ok (Char.ofNat (0x10000 + (high - 0xd800) * 0x400 + (low - 0xdc00)), 10)
          else .ok (charOfUnit high, 4)
      else .ok (charOfUnit high, 4)

/-- The character of an escape and how many characters of `rest` it takes.  `offset` is the place of
the backslash, `rest` what follows it, and `start` the place of the opening quote. -/
def escape (start offset : Nat) (rest : List Char) : Except Fault (Char × Nat) :=
  match rest with
  | [] => .error ⟨.unterminated, start⟩
  | 'u' :: digits => (unicodeEscape offset digits).map fun r => (r.1, r.2 + 1)
  | c :: _ =>
    match c with
    | '"' => .ok ('"', 1)
    | '\\' => .ok ('\\', 1)
    | '/' => .ok ('/', 1)
    | 'b' => .ok (Char.ofNat 8, 1)
    | 'f' => .ok (Char.ofNat 12, 1)
    | 'n' => .ok ('\n', 1)
    | 'r' => .ok ('\r', 1)
    | 't' => .ok ('\t', 1)
    | _ => .error ⟨.escape, offset⟩

/-- A result together with the place after it, which leaves fewer than `bound` characters. -/
abbrev Shorter (bound : Nat) (α : Type) := α × { d : Cursor // d.size < bound }

/-- The rest of a text whose opening quote is at `start`; `done` holds what was read, latest
first. -/
def textFrom (start bound : Nat) (c : Cursor) (hc : c.size < bound) (done : List Char) :
    Except Fault (Shorter bound String) :=
  match h : c.rest with
  | [] => .error ⟨.unterminated, start⟩
  | ch :: rest =>
    have hr : rest.length < c.size := by simp [Cursor.size, h]
    if ch = '"' then
      .ok (String.ofList done.reverse, ⟨⟨c.offset + 1, rest⟩, Nat.lt_trans hr hc⟩)
    else if ch = '\\' then
      match escape start c.offset rest with
      | .error f => .error f
      | .ok (x, n) =>
        have hd : (rest.drop n).length < c.size :=
          Nat.lt_of_le_of_lt (by simp) hr
        textFrom start bound ⟨c.offset + 1 + n, rest.drop n⟩ (Nat.lt_trans hd hc) (x :: done)
    else if ch.toNat < 0x20 then .error ⟨.controlCharacter, c.offset⟩
    else textFrom start bound ⟨c.offset + 1, rest⟩ (Nat.lt_trans hr hc) (ch :: done)
termination_by c.size
decreasing_by
  all_goals simp_all [Cursor.size]

/-- An ASCII digit. -/
def isDigit (c : Char) : Bool := '0' ≤ c && c ≤ '9'

/-- The number that ASCII digits stand for. -/
def digitsValue (cs : List Char) : Nat :=
  cs.foldl (fun n c => n * 10 + (c.toNat - '0'.toNat)) 0

/-- The whole part of a numeral: a zero alone, or digits that do not begin with zero. -/
def wholePart? : List Char → Option (List Char)
  | [] => none
  | c :: cs =>
    if c = '0' then some ['0']
    else if isDigit c then some (c :: cs.takeWhile isDigit)
    else none

/-- The fraction of a numeral: a point and at least one digit; the digits are returned. -/
def fractionPart : List Char → List Char
  | '.' :: cs => cs.takeWhile isDigit
  | _ => []

/-- The exponent of a numeral: its value and the number of characters it takes, none at all unless
there is a digit. -/
def exponentPart? : List Char → Option (Int × Nat)
  | [] => none
  | e :: cs =>
    if e = 'e' || e = 'E' then
      let (sign, cs, n) : Int × List Char × Nat :=
        match cs with
        | '+' :: r => (1, r, 2)
        | '-' :: r => (-1, r, 2)
        | r => (1, r, 1)
      let ds := cs.takeWhile isDigit
      if ds.isEmpty then none else some (sign * digitsValue ds, n + ds.length)
    else none

/-- A number at the start of `cs` and how many characters it takes. -/
def numeral? (cs : List Char) : Option (Json × Nat) :=
  let (negative, unsigned) : Bool × List Char :=
    match cs with
    | '-' :: r => (true, r)
    | r => (false, r)
  match wholePart? unsigned with
  | none => none
  | some whole =>
    let afterWhole := unsigned.drop whole.length
    let fraction := fractionPart afterWhole
    let fractionSize := if fraction.isEmpty then 0 else fraction.length + 1
    let exponent := exponentPart? (afterWhole.drop fractionSize)
    let size := (if negative then 1 else 0) + whole.length + fractionSize
    if fraction.isEmpty && exponent.isNone then
      let n : Int := digitsValue whole
      some (.int (if negative then -n else n), size)
    else
      let (e, exponentSize) := exponent.getD (0, 0)
      let digits := digitsValue (whole ++ fraction)
      some (.float (Binary64.ofDecimal negative digits (e - fraction.length)), size + exponentSize)

/-- The values that are written as a name. -/
def names : List (String × Json) :=
  [("null", .null), ("true", .bool true), ("false", .bool false), ("NaN", .float .nan),
   ("Infinity", .float (.infinity false)), ("-Infinity", .float (.infinity true))]

/-- A named value at the start of `cs` and how many characters it takes. -/
def named? (cs : List Char) : Option (Json × Nat) :=
  names.findSome? fun (name, v) =>
    if (Text.dropList? name.toList cs).isSome then some (v, name.length) else none

mutual
/-- The value at a place. -/
def value (c : Cursor) : Except Fault (Shorter c.size Json) :=
  match h : c.rest with
  | [] => .error ⟨.value, c.offset⟩
  | ch :: rest =>
    have hr : rest.length < c.size := by simp [Cursor.size, h]
    let after : Cursor := ⟨c.offset + 1, rest⟩
    have hs : after.skip.size < c.size := Nat.lt_of_le_of_lt after.size_skip_le hr
    if ch = '"' then
      match textFrom c.offset c.size after hr [] with
      | .error f => .error f
      | .ok (s, d) => .ok (.text s, d)
    else if ch = '\x7b' then
      match he : after.skip.rest with
      | '\x7d' :: r =>
        .ok (.object [], ⟨⟨after.skip.offset + 1, r⟩, by
          have : r.length < after.skip.size := by simp [Cursor.size, he]
          exact Nat.lt_trans this hs⟩)
      | _ =>
        match fields c.size after.skip hs [] with
        | .error f => .error f
        | .ok (fs, d) => .ok (.object fs, d)
    else if ch = '[' then
      match he : after.skip.rest with
      | ']' :: r =>
        .ok (.array [], ⟨⟨after.skip.offset + 1, r⟩, by
          have : r.length < after.skip.size := by simp [Cursor.size, he]
          exact Nat.lt_trans this hs⟩)
      | _ =>
        match items c.size after.skip hs [] with
        | .error f => .error f
        | .ok (vs, d) => .ok (.array vs, d)
    else
      match named? (ch :: rest) <|> numeral? (ch :: rest) with
      | some (v, n) =>
        .ok (v, ⟨⟨c.offset + n, rest.drop (n - 1)⟩, Nat.lt_of_le_of_lt (by simp [Cursor.size]) hr⟩)
      | none => .error ⟨.value, c.offset⟩
termination_by (c.size, 0)

/-- The items of an array from the next one on; `done` holds those read, latest first. -/
def items (bound : Nat) (c : Cursor) (hc : c.size < bound) (done : List Json) :
    Except Fault (Shorter bound (List Json)) :=
  match value c with
  | .error f => .error f
  | .ok (v, ⟨d, hd⟩) =>
    have hs : d.skip.size < c.size := Nat.lt_of_le_of_lt d.size_skip_le hd
    match he : d.skip.rest with
    | ']' :: r =>
      .ok ((v :: done).reverse, ⟨⟨d.skip.offset + 1, r⟩, by
        have : r.length < d.skip.size := by simp [Cursor.size, he]
        exact Nat.lt_trans this (Nat.lt_trans hs hc)⟩)
    | ',' :: r =>
      let next : Cursor := ⟨d.skip.offset + 1, r⟩
      have hn : next.skip.size < c.size := by
        have h₁ : r.length < d.skip.size := by simp [Cursor.size, he]
        exact Nat.lt_trans (Nat.lt_of_le_of_lt next.size_skip_le h₁) hs
      items bound next.skip (Nat.lt_trans hn hc) (v :: done)
    | _ => .error ⟨.comma, d.skip.offset⟩
termination_by (c.size, 1)

/-- The fields of an object from the next one on; `done` holds those read. -/
def fields (bound : Nat) (c : Cursor) (hc : c.size < bound) (done : Fields) :
    Except Fault (Shorter bound Fields) :=
  match hk : c.rest with
  | '"' :: kr =>
    have hkr : kr.length < c.size := by simp [Cursor.size, hk]
    match textFrom c.offset c.size ⟨c.offset + 1, kr⟩ hkr [] with
    | .error f => .error f
    | .ok (key, ⟨k, hk⟩) =>
      have hks : k.skip.size < c.size := Nat.lt_of_le_of_lt k.size_skip_le hk
      match hcol : k.skip.rest with
      | ':' :: vr =>
        let start : Cursor := ⟨k.skip.offset + 1, vr⟩
        have hst : start.skip.size < c.size := by
          have h₁ : vr.length < k.skip.size := by simp [Cursor.size, hcol]
          exact Nat.lt_trans (Nat.lt_of_le_of_lt start.size_skip_le h₁) hks
        match value start.skip with
        | .error f => .error f
        | .ok (v, ⟨d, hd⟩) =>
          have hs : d.skip.size < c.size :=
            Nat.lt_trans (Nat.lt_of_le_of_lt d.size_skip_le hd) hst
          match he : d.skip.rest with
          | '\x7d' :: r =>
            .ok (done.put key v, ⟨⟨d.skip.offset + 1, r⟩, by
              have : r.length < d.skip.size := by simp [Cursor.size, he]
              exact Nat.lt_trans this (Nat.lt_trans hs hc)⟩)
          | ',' :: r =>
            let next : Cursor := ⟨d.skip.offset + 1, r⟩
            have hn : next.skip.size < c.size := by
              have h₁ : r.length < d.skip.size := by simp [Cursor.size, he]
              exact Nat.lt_trans (Nat.lt_of_le_of_lt next.size_skip_le h₁) hs
            fields bound next.skip (Nat.lt_trans hn hc) (done.put key v)
          | _ => .error ⟨.comma, d.skip.offset⟩
      | _ => .error ⟨.colon, k.skip.offset⟩
  | _ => .error ⟨.fieldName, c.offset⟩
termination_by (c.size, 1)
end

/-- The value that the characters of a whole text stand for. -/
def readAll (cs : List Char) : Except Fault Json :=
  if cs.head?.map Char.toNat = some 0xfeff then .error ⟨.byteOrderMark, 0⟩
  else
    match value (skipSpaces 0 cs) with
    | .error f => .error f
    | .ok (v, ⟨d, _⟩) =>
      if d.skip.rest.isEmpty then .ok v else .error ⟨.extraText, d.skip.offset⟩

end Reader

/-- The value that a text stands for, or the wording of the failure. -/
def read (text : String) : Except String Json :=
  match Reader.readAll text.toList with
  | .ok v => .ok v
  | .error f => .error (f.message text.toList)

end RecordLayout.Json
