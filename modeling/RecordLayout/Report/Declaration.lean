import RecordLayout.Text.Blank
import RecordLayout.TypeTree.Basic

/-!
# C declarations

Types written as declarations of the C language.

## Main definitions

* `TypeNode.declare` declares a name of a type;
* `Aggregate.body` is an aggregate with its members;
* `TypeNode.declaration` is a complete declaration of a type.
-/

namespace RecordLayout

/-- The attributes after a declarator. -/
def Attributes.suffix (a : Attributes) : String :=
  let parts :=
    (if a.packed then ["packed"] else [])
      ++ a.requested?.toList.map fun n => s!"aligned({n})"
  if parts.isEmpty then ""
  else " __attribute__((" ++ String.intercalate ", " parts ++ "))"

/-- Declares a name of a scalar type.  The stars of a pointer go to the name. -/
def Primitive.declare (p : Primitive) (name : String) : String :=
  let isStar := fun c : Char => c = '*'
  let cs := p.name.toList
  if p.name = "pointer" then "void *" ++ name
  else if cs.getLast? = some '*' then
    let stars := (cs.reverse.takeWhile isStar)
    let base := Text.strip (String.ofList (Text.dropEndWhile isStar cs))
    Text.stripEnd (base ++ " " ++ String.ofList stars ++ name)
  else Text.stripEnd (p.name ++ " " ++ name)

/-- A keyword, and a tag if there is one, in front of a body. -/
def bodyHead (kind : AggregateKind) (name : Option String) : String :=
  match nonemptyName? name with
  | none => kind.keyword ++ " \x7b"
  | some tag => kind.keyword ++ " " ++ tag ++ " \x7b"

mutual
/-- Declares `name` with a type; `indent` stands in front of the line. -/
def TypeNode.declare (indent name : String) : TypeNode → String
  | .primitive p => p.declare name
  | .aggregate a => a.declare indent name
  | .array e dims => e.declare indent (name ++ TypeNode.brackets dims)
  | .flexibleArray e => e.declare indent (name ++ "[]")
  | .bitfield base width => base.declare name ++ " : " ++ width.plain
  | .incomplete label => Text.stripEnd (label.text ++ " " ++ name)
  | .unknown _ => Text.stripEnd ("void " ++ name)

/-- Declares `name` with an aggregate type: by its tag, or with the whole body when it has none. -/
def Aggregate.declare (indent name : String) : Aggregate → String
  | ⟨kind, members, tag, _, attributes, _⟩ =>
    match nonemptyName? tag with
    | some tag => Text.stripEnd (kind.keyword ++ " " ++ tag ++ " " ++ name)
    | none =>
      let lines := bodyHead kind none :: memberLines (indent ++ "    ") members
        ++ [indent ++ "\x7d" ++ attributes.suffix]
      Text.stripEnd (String.intercalate "\n" lines ++ " " ++ name)

/-- The lines that declare members. -/
def memberLines (indent : String) : List Member → List String
  | [] => []
  | x :: xs => x.line indent :: memberLines indent xs

/-- The line that declares a member. -/
def Member.line (indent : String) : Member → String
  | ⟨type, name, attributes⟩ =>
    indent ++ type.declare indent (name.getD "") ++ attributes.suffix ++ ";"
end

theorem memberLines_eq_map (indent : String) (xs : List Member) :
    memberLines indent xs = xs.map (Member.line indent) := by
  induction xs with
  | nil => rfl
  | cons x xs ih => rw [memberLines, ih, List.map_cons]

/-- An aggregate with its members, at the left margin. -/
def Aggregate.body (a : Aggregate) : String :=
  String.intercalate "\n"
    (bodyHead a.kind a.name :: memberLines "    " a.members ++ ["\x7d" ++ a.attributes.suffix])

/-- A complete declaration of an aggregate: a definition of its tag, or of the type name `name` when
it has none, inside the pack that it needs. -/
def Aggregate.declaration (name : String) (a : Aggregate) : String :=
  let open_ := a.pack.toList.map fun pack => "#pragma pack(push, " ++ pack.plain ++ ")"
  let close := a.pack.toList.map fun _ => "#pragma pack(pop)"
  let definition :=
    match nonemptyName? a.name with
    | some _ => a.body ++ ";"
    | none => "typedef " ++ a.body ++ " " ++ name ++ ";"
  String.intercalate "\n" (open_ ++ definition :: close) ++ "\n"

/-- A complete declaration of a type; a type that is no aggregate gets the type name `name`. -/
def TypeNode.declaration (name : String) : TypeNode → String
  | .aggregate a => a.declaration name
  | node => "typedef " ++ node.declare "" name ++ ";\n"

end RecordLayout
