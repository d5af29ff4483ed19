import RecordLayout.Dwarf.Basic
import RecordLayout.PathName

/-!
# Files

What a run sees of the file system: what stands at the end of each path.  One way to know is a tree
of the files below one directory, where a path is followed part by part.

## Main definitions

* `Files` tells what stands at the end of a path, `Files.read` what a file holds, and
  `Files.checkWritable` whether a file can be written;
* `FileTree` has the files below one directory, and `FileTree.follow` follows a path;
* `FileError` says why a file cannot be used, and `FileError.message` is the wording.
-/

namespace RecordLayout

/-- What a file holds: its octets, or the debugging information of a container that was read
before. -/
inductive Contents where
  | octets (bs : List UInt8)
  | recorded (info : Dwarf.Info)

/-- Why a file cannot be used. -/
inductive FileError.Cause where
  | missing
  | notADirectory
  | isADirectory
  /-- A path with a zero character in it. -/
  | zeroInPath
  deriving DecidableEq, Repr

/-- A file that cannot be used. -/
structure FileError where
  cause : FileError.Cause
  path : String
  deriving DecidableEq, Repr

/-- The wording of a refusal. -/
def FileError.message (e : FileError) : String :=
  match e.cause with
  | .missing => "[Errno 2] No such file or directory: " ++ Text.quoted e.path
  | .notADirectory => "[Errno 20] Not a directory: " ++ Text.quoted e.path
  | .isADirectory => "[Errno 21] Is a directory: " ++ Text.quoted e.path
  | .zeroInPath => "embedded null byte"

/-- What stands at the end of a path. -/
inductive Standing where
  | absent
  | directory
  | file (contents : Contents)

/-- What stands at the end of each path.  Only the last part of a path may be absent. -/
structure Files where
  follow : String → Except FileError.Cause Standing

namespace Files

/-- Whether a file stands at the end of a path. -/
def isFile (files : Files) (path : String) : Bool :=
  match files.follow path with
  | .ok (.file _) => true
  | _ => false

/-- What the file of a path holds. -/
def read (files : Files) (path : String) : Except FileError Contents :=
  match files.follow path with
  | .ok (.file contents) => .ok contents
  | .ok .directory => .error ⟨.isADirectory, path⟩
  | .ok .absent => .error ⟨.missing, path⟩
  | .error cause => .error ⟨cause, path⟩

/-- Whether a file can be written at a path. -/
def checkWritable (files : Files) (path : String) : Except FileError Unit :=
  match files.follow path with
  | .ok .directory => .error ⟨.isADirectory, path⟩
  | .ok _ => .ok ()
  | .error cause => .error ⟨cause, path⟩

end Files

/-- The files and the empty directories below one directory, by the parts of their paths; a
directory has no contents. -/
structure FileTree where
  entries : List (List String × Option Contents)

namespace FileTree

/-- The tree of files and empty directories by path. -/
def ofList (files : List (String × Option Contents)) : FileTree :=
  ⟨files.map fun (path, contents) => (PathName.parts path, contents)⟩

/-- What stands at the end of the parts of a path. -/
def placeAt (t : FileTree) (parts : List String) : Standing :=
  match t.entries.find? fun e => e.1 == parts with
  | some (_, some contents) => .file contents
  | some (_, none) => .directory
  | none => if t.entries.any fun e => parts.isPrefixOf e.1 then .directory else .absent

/-- Whether a part of a path leads nowhere else. -/
def staysPut (part : String) : Bool := part == "" || part == "."

/-- What stands at the end of a path that leaves the tree: outside of it there are directories
only. -/
def outside (parts : List String) : Except FileError.Cause Standing :=
  if parts.all fun part => staysPut part || part == ".." then .ok .directory else .error .missing

/-- Follows the parts of a path from the directory `here` on.  The last part may be absent. -/
def followFrom (t : FileTree) (here : List String) : List String → Except FileError.Cause Standing
  | [] => .ok .directory
  | part :: parts =>
    if staysPut part then t.followFrom here parts
    else if part = ".." then
      -- Above the root of the tree nothing is known but that there are directories.
      if here.isEmpty then outside parts else t.followFrom here.dropLast parts
    else
      match t.placeAt (here ++ [part]) with
      | .directory => t.followFrom (here ++ [part]) parts
      | .absent => if parts.isEmpty then .ok .absent else .error .missing
      | .file contents => if parts.isEmpty then .ok (.file contents) else .error .notADirectory

/-- What stands at the end of a path. -/
def follow (t : FileTree) (path : String) : Except FileError.Cause Standing :=
  if path.toList.contains (Char.ofNat 0) then .error .zeroInPath
  else
    match (Text.splitAt '/' path.toList).map String.ofList with
    | [""] => .error .missing
    | "" :: parts => outside parts
    | parts => t.followFrom [] parts

/-- What stands at the end of each path. -/
def files (t : FileTree) : Files := ⟨t.follow⟩

/-- The place below the root at the end of parts that are followed from the directory `here` on,
when all of them but the last one are directories. -/
def placeFrom (here : List String) : List String → List String
  | [] => here
  | part :: parts =>
    if staysPut part then placeFrom here parts
    else if part = ".." then placeFrom here.dropLast parts
    else placeFrom (here ++ [part]) parts

/-- The tree after a text is written to the file of a path. -/
def write (t : FileTree) (path text : String) : FileTree :=
  let place := placeFrom [] ((Text.splitAt '/' path.toList).map String.ofList)
  ⟨(place, some (.octets text.toUTF8.toList)) :: t.entries⟩

end FileTree

end RecordLayout
