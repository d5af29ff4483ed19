import RecordLayout.Text.Blank

/-!
# Names of files

A path is cut at its slashes; empty parts and parts that stand for the directory itself do not
count.

## Main definitions

* `PathName.name` is the last part of a path, and `PathName.stem` is that without its extension;
* `PathName.normalize` is the path without the parts that do not count.
-/

namespace RecordLayout.PathName

/-- The parts of a path that count. -/
def parts (path : String) : List String :=
  ((Text.splitAt '/' path.toList).map String.ofList).filter fun p => p ≠ "" && p ≠ "."

/-- The last part of a path. -/
def name (path : String) : String := (parts path).getLast?.getD ""

/-- The last part of a path without its extension.  A dot at either end of the name begins no
extension. -/
def stem (path : String) : String :=
  let cs := (name path).toList
  let extension := (cs.reverse.takeWhile (· ≠ '.')).length
  let kept := cs.length - extension - 1
  if extension = cs.length || extension = 0 || kept = 0 then name path
  else String.ofList (cs.take kept)

/-- The slashes that a path begins with, as far as they count: exactly two are kept, any other
number counts as one. -/
def root (path : String) : String :=
  match path.toList.takeWhile (· = '/') with
  | [] => ""
  | [_, _] => "//"
  | _ => "/"

/-- The path without the parts that do not count. -/
def normalize (path : String) : String :=
  let text := root path ++ String.intercalate "/" (parts path)
  if text = "" then "." else text

end RecordLayout.PathName
