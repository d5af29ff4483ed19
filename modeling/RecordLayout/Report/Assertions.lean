import RecordLayout.Report.Declaration
import RecordLayout.Report.Entry

/-!
# C reports

The types of a report as C declarations, each after those it needs, followed by assertions that let
a compiler check the computed layouts.

## Main definitions

* `Report.namedDependencies` lists the aggregates with a tag that a type contains;
* `Report.declared` lists the aggregates that a report declares, in order;
* `Report.source` is the report of several types.
-/

namespace RecordLayout.Report

/-- Whether an aggregate is among others, by its origin. -/
def isAmong (a : Aggregate) (others : List Aggregate) : Bool :=
  others.any fun b => b.origin == a.origin

mutual
/-- The aggregates with a tag that a type contains by value, each after those it contains itself,
added to those found before. -/
def namedDependencies (found : List Aggregate) : TypeNode → List Aggregate
  | .array e _ => namedDependencies found e
  | .flexibleArray e => namedDependencies found e
  | .aggregate a => aggregateDependencies found a
  | _ => found

/-- The same for an aggregate, which comes last. -/
def aggregateDependencies (found : List Aggregate) : Aggregate → List Aggregate
  | ⟨kind, members, name, pack, attributes, origin⟩ =>
    -- The members first: what an aggregate contains is declared before it.
    let found := membersDependencies found members
    let a : Aggregate := ⟨kind, members, name, pack, attributes, origin⟩
    if (nonemptyName? name).isSome && !isAmong a found then found ++ [a] else found

/-- The same for the types of members. -/
def membersDependencies (found : List Aggregate) : List Member → List Aggregate
  | [] => found
  | x :: xs => membersDependencies (memberDependencies found x) xs

/-- The same for the type of a member. -/
def memberDependencies (found : List Aggregate) : Member → List Aggregate
  | ⟨type, _, _⟩ => namedDependencies found type
end

/-- The aggregate of an entry. -/
def Entry.aggregate? (e : Entry) : Option Aggregate := e.node.bind TypeNode.asAggregate?

/-- The aggregates that an entry needs declared: those with a tag, and its own when it has no
name. -/
def Entry.dependencies (e : Entry) : List Aggregate :=
  let tagged := (e.node.map (namedDependencies [])).getD []
  match e.aggregate? with
  | some a => if a.name.isNone then tagged ++ [a] else tagged
  | none => tagged

/-- An aggregate of a report with the name for its type. -/
structure Declared where
  aggregate : Aggregate
  typeName : String

/-- The name for the type of an aggregate that an entry needs. -/
def Entry.typeNameOf (e : Entry) (a : Aggregate) : String :=
  match e.aggregate? with
  | some own => if own.origin == a.origin then e.name else a.name.getD ""
  | none => a.name.getD ""

/-- The declarations after one more entry; what is declared already is not declared again. -/
def declareEntry (done : List Declared) (e : Entry) : List Declared :=
  e.dependencies.foldl
    (fun done a =>
      if isAmong a (done.map (·.aggregate)) then done else done ++ [⟨a, e.typeNameOf a⟩])
    done

/-- The aggregates that a report declares, in order. -/
def declared (entries : List Entry) : List Declared := entries.foldl declareEntry []

/-- The lines of a declaration. -/
def Declared.lines (d : Declared) : List String :=
  [Text.stripEnd (d.aggregate.declaration d.typeName), ""]

/-- An offset or a size in an assertion.  The sign of a number stands before its digits. -/
def hexLiteral (n : Int) : String :=
  "0x" ++ (if n < 0 then "-" else "") ++ Text.hexadecimal n.natAbs

/-- The assertion on a member, which cannot be made for bitfields and unnamed members. -/
def memberAssertion? (typeName label : String) (m : MemberLayout) : Option String :=
  match m.name, m.bits with
  | some name, none =>
    some ("_Static_assert(offsetof(" ++ typeName ++ ", " ++ name ++ ") == "
      ++ hexLiteral m.byteOffset ++ ", \"" ++ label ++ "." ++ name ++ " offset\");")
  | _, _ => none

/-- The assertions on an entry. -/
def assertionLines (e : Entry) : List String :=
  match e.aggregate? with
  | none => []
  | some a =>
    let tag := nonemptyName? a.name
    let typeName := (tag.map fun t => a.kind.keyword ++ " " ++ t).getD e.name
    let label := tag.getD e.name
    let r := e.result
    ["_Static_assert(sizeof(" ++ typeName ++ ") == " ++ hexLiteral r.size ++ ", \"" ++ label
        ++ " size\");",
     "_Static_assert(_Alignof(" ++ typeName ++ ") == " ++ toString r.alignment ++ ", \"" ++ label
        ++ " alignment\");"]
    ++ r.members.filterMap (memberAssertion? typeName label) ++ [""]

/-- The lines before the first declaration. -/
def preamble : List String :=
  ["/* Generated by bytewise */", "#include <stddef.h>", "#include <stdint.h>", ""]

/-- The report of several types. -/
def source (entries : List Entry) : String :=
  let lines :=
    preamble ++ (declared entries).flatMap Declared.lines ++ entries.flatMap assertionLines
  Text.stripEnd (String.intercalate "\n" lines) ++ "\n"

end RecordLayout.Report
