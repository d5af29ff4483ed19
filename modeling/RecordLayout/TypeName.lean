import RecordLayout.Text.Blank

/-!
# Spellings of type names

A type name is a sequence of words and stars.  Blanks only separate words, and qualifiers do not
change what a name stands for, so two spellings name the same type exactly when they have the same
tokens once the qualifiers are removed.  The normal spelling writes each token once: a blank before
every word but the first, and nothing before a star.

## Main definitions

* `TypeName.tokens` cuts a spelling into its tokens;
* `TypeName.spell` writes tokens in the normal spelling;
* `TypeName.normalize` is the normal spelling of a type name.
-/

namespace RecordLayout.TypeName

/-- A token of a type name. -/
inductive Token where
  | star
  | word (w : List Char)
  deriving DecidableEq, Repr

/-- The word that has been read so far, if any; its characters come latest first. -/
def pendingWord (word : List Char) : List Token :=
  if word.isEmpty then [] else [.word word.reverse]

/-- The tokens of the characters, after the characters of an unfinished word. -/
def tokensFrom (word : List Char) : List Char → List Token
  | [] => pendingWord word
  | c :: cs =>
    if Text.isBlank c then pendingWord word ++ tokensFrom [] cs
    else if c = '*' then pendingWord word ++ .star :: tokensFrom [] cs
    else tokensFrom (c :: word) cs

/-- The words that say how a type may be used and not which type it is. -/
def qualifiers : List String := ["const", "volatile", "restrict", "_Atomic"]

/-- A qualifier does not count as a token of the name. -/
def Token.isQualifier : Token → Bool
  | .star => false
  | .word w => qualifiers.contains (String.ofList w)

/-- The tokens of a spelling, without qualifiers. -/
def tokens (spelling : String) : List Token :=
  (tokensFrom [] spelling.toList).filter fun t => !t.isQualifier

/-- The tokens after the first in the normal spelling. -/
def spellRest : List Token → List Char
  | [] => []
  | .star :: ts => '*' :: spellRest ts
  | .word w :: ts => ' ' :: w ++ spellRest ts

/-- The normal spelling of a sequence of tokens. -/
def spell : List Token → List Char
  | [] => []
  | .star :: ts => '*' :: spellRest ts
  | .word w :: ts => w ++ spellRest ts

/-- The normal spelling of a type name. -/
def normalize (spelling : String) : String :=
  String.ofList (spell (tokens spelling))

/-- A name whose last character is a star stands for a pointer. -/
def isPointer (name : String) : Bool :=
  name.toList.getLast? == some '*'

end RecordLayout.TypeName
