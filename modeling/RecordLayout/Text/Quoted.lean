import RecordLayout.Text.Numeral
import RecordLayout.Text.Printable

/-!
# Quoted texts

How a text is shown inside a message.  Single quotes enclose it, unless it holds a single quote and
no double quote; the enclosing quote, the backslash and every character that is not printable are
written as escapes.

## Main definitions

* `Text.quoted` is the quoted form of a text, and `Text.quotedOctets` that of octets.
-/

namespace RecordLayout.Text

/-- The quote that encloses a text. -/
def quoteFor (cs : List Char) : Char :=
  if cs.contains '\'' && !cs.contains '"' then '"' else '\''

/-- One character inside quotes `q`. -/
def quotedChar (q c : Char) : String :=
  if c = q || c = '\\' then String.ofList ['\\', c]
  else if c = '\t' then "\\t"
  else if c = '\n' then "\\n"
  else if c = '\r' then "\\r"
  else if isPrintable c then String.singleton c
  else if c.toNat < 0x100 then "\\x" ++ hexadecimalPadded 2 c.toNat
  else if c.toNat < 0x10000 then "\\u" ++ hexadecimalPadded 4 c.toNat
  else "\\U" ++ hexadecimalPadded 8 c.toNat

/-- The quoted form of a text. -/
def quoted (s : String) : String :=
  let q := quoteFor s.toList
  String.singleton q ++ String.join (s.toList.map (quotedChar q)) ++ String.singleton q

/-- One octet inside quotes `q`: a character of ASCII, or else an escape. -/
def quotedOctet (q : Char) (b : UInt8) : String :=
  if b.toNat < 0x80 then quotedChar q (Char.ofNat b.toNat)
  else "\\x" ++ hexadecimalPadded 2 b.toNat

/-- The quoted form of octets, after the letter that tells them from a text. -/
def quotedOctets (bs : List UInt8) : String :=
  let q := quoteFor (bs.map fun b => Char.ofNat b.toNat)
  "b" ++ String.singleton q ++ String.join (bs.map (quotedOctet q)) ++ String.singleton q

end RecordLayout.Text
