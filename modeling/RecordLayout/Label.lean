import RecordLayout.Text.Quoted

/-!
# Labels

What a thing is called whose kind has no name of its own: by a name, or by the code of its kind.

## Main definitions

* `Label` is a name or a code;
* `Label.text` shows a label, and `Label.quoted` is its form inside a longer message.
-/

namespace RecordLayout

/-- A name, or a code that has no name. -/
inductive Label where
  | name (s : String)
  | code (n : Nat)
  deriving DecidableEq, Repr, Inhabited

namespace Label

/-- A label as it is. -/
def text : Label → String
  | .name s => s
  | .code n => toString n

/-- A label with quotes around a name. -/
def quoted : Label → String
  | .name s => Text.quoted s
  | .code n => toString n

end Label

end RecordLayout
