/-!
# Blank characters

Which characters separate words, and the operations that cut a text at them.

## Main definitions

* `Text.isBlank` is the set: the ASCII controls that move the position, the four separators, the
  space, and the spaces and line separators of Unicode;
* `Text.strip` and `Text.stripEnd` drop blanks at the ends of a text;
* `Text.dropStart?` cuts a fixed beginning off a text.
-/

namespace RecordLayout.Text

/-- A blank separates words. -/
def isBlank (c : Char) : Bool :=
  let n := c.toNat
  (9 ≤ n && n ≤ 13) || (0x1c ≤ n && n ≤ 0x20) || n == 0x85 || n == 0xa0 || n == 0x1680
    || (0x2000 ≤ n && n ≤ 0x200a) || n == 0x2028 || n == 0x2029 || n == 0x202f
    || n == 0x205f || n == 0x3000

/-- The characters without those at the end that satisfy `p`. -/
def dropEndWhile (p : Char → Bool) (cs : List Char) : List Char :=
  (cs.reverse.dropWhile p).reverse

/-- A text without the blanks at its end. -/
def stripEnd (s : String) : String :=
  String.ofList (dropEndWhile isBlank s.toList)

/-- A text without the blanks at either end. -/
def strip (s : String) : String :=
  String.ofList (dropEndWhile isBlank (s.toList.dropWhile isBlank))

/-- What follows `start` in `cs`, when `cs` begins with it. -/
def dropList? : List Char → List Char → Option (List Char)
  | [], cs => some cs
  | _ :: _, [] => none
  | a :: start, c :: cs => if a = c then dropList? start cs else none

/-- What follows `start` in a text that begins with it. -/
def dropStart? (start s : String) : Option String :=
  (dropList? start.toList s.toList).map String.ofList

/-- Whether `part` occurs in `cs` at some place. -/
def occursIn (part : List Char) : List Char → Bool
  | [] => part.isEmpty
  | c :: cs => (dropList? part (c :: cs)).isSome || occursIn part cs

/-- The pieces of a text between the occurrences of a separating character. -/
def splitAt (sep : Char) : List Char → List (List Char)
  | [] => [[]]
  | c :: cs =>
    if c = sep then [] :: splitAt sep cs
    else
      match splitAt sep cs with
      | [] => [[c]]
      | piece :: pieces => (c :: piece) :: pieces

/-- A text with blanks added in front up to a least width. -/
def padStart (width : Nat) (s : String) : String :=
  String.ofList (List.replicate (width - s.length) ' ') ++ s

/-- A text with blanks added at the end up to a least width. -/
def padEnd (width : Nat) (s : String) : String :=
  s ++ String.ofList (List.replicate (width - s.length) ' ')

end RecordLayout.Text
