/-!
# Lines

Which characters end a line, and the last line of a text.

## Main definitions

* `Text.isLineEnd` is the set: the line feeds and carriage returns of ASCII, the separators of
  files, groups and records, and the line and paragraph separators of Unicode;
* `Text.lastLine` is what follows the last of them.
-/

namespace RecordLayout.Text

/-- Whether a character ends a line. -/
def isLineEnd (c : Char) : Bool :=
  let n := c.toNat
  (10 ≤ n && n ≤ 13) || (0x1c ≤ n && n ≤ 0x1e) || n == 0x85 || n == 0x2028 || n == 0x2029

/-- The last line of a text. -/
def lastLine (s : String) : String :=
  String.ofList (s.toList.reverse.takeWhile fun c => !isLineEnd c).reverse

end RecordLayout.Text
