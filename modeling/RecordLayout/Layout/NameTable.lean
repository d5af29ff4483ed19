import RecordLayout.Failure
import RecordLayout.Layout.Result

/-!
# Name tables

The names that are visible in an aggregate, each with the place where its field lives.  Fields of
unnamed members are visible under their own names, fields of named aggregate members under dotted
names.  Two fields of one scope that would share a name are an error.

## Main definitions

* `NameEntry` is the place of a field, with the path of members that leads to it;
* `LayoutResult.scope` lists the names of a scope in order of declaration;
* `LayoutResult.nameTable` is the whole table.
-/

namespace RecordLayout

/-- Where a visible name lives.  The path lists the members walked through to reach the field;
unnamed ones have no name. -/
structure NameEntry where
  path : List (Option String)
  type : TypeNode
  byteOffset : Int
  bits : Option BitRange
  /-- The size of the storage that a bitfield is reported against. -/
  storageSize : Option Quantity
  layout : Option LayoutResult

instance : Inhabited NameEntry := ⟨⟨[], default, 0, none, none, none⟩⟩

/-- The path as text. -/
def NameEntry.pathText (e : NameEntry) : String :=
  String.intercalate "." (e.path.map fun name => name.getD "(anonymous)")

/-- The entry as it is seen through one more member at the outer end. -/
def NameEntry.under (member : Option String) (e : NameEntry) : NameEntry :=
  { e with path := member :: e.path }

/-- The entry of a field of the member that `outer` is the entry of. -/
def NameEntry.inside (outer e : NameEntry) : NameEntry :=
  { e with path := outer.path ++ e.path, byteOffset := outer.byteOffset + e.byteOffset }

/-- Visible names with their entries.  A name that is written again keeps its place. -/
abbrev NameTable := List (String × NameEntry)

namespace NameTable

/-- The entry of a name. -/
def get? (name : String) : NameTable → Option NameEntry
  | [] => none
  | (k, e) :: table => if k = name then some e else get? name table

/-- The table after writing a name. -/
def put (name : String) (entry : NameEntry) : NameTable → NameTable
  | [] => [(name, entry)]
  | (k, e) :: table => if k = name then (k, entry) :: table else (k, e) :: put name entry table

end NameTable

/-- A name of a scope, with the table of the names below it. -/
structure ScopeEntry where
  name : String
  entry : NameEntry
  below : Except Failure NameTable

/-- The entry as it is seen through an unnamed member. -/
def ScopeEntry.throughAnonymous (e : ScopeEntry) : ScopeEntry :=
  { e with entry := e.entry.under none }

/-- The names of a scope, none of them twice. -/
def distinctNames (scope : List ScopeEntry) : Except Failure NameTable :=
  scope.foldlM
    (fun table e =>
      match NameTable.get? e.name table with
      | some first =>
        .error (.layout
          ⟨.duplicateMember e.name first.pathText e.entry.pathText, [e.name]⟩)
      | none => .ok (table ++ [(e.name, e.entry)]))
    []

/-- A table with the names below one entry of its scope written into it under dotted names. -/
def addBelow (table : NameTable) (e : ScopeEntry) : Except Failure NameTable :=
  e.below.map fun below =>
    below.foldl
      (fun table sub =>
        NameTable.put (e.name ++ "." ++ sub.1) (NameEntry.inside e.entry sub.2) table)
      table

/-- The table of a scope. -/
def tableOfScope (scope : List ScopeEntry) : Except Failure NameTable := do
  let table ← distinctNames scope
  scope.foldlM addBelow table

mutual
/-- The names of the scope of a layout that starts at `base`. -/
def LayoutResult.scope (base : Int) : LayoutResult → List ScopeEntry
  | ⟨_, _, _, _, members, _, _⟩ => scopeOfMembers base members

/-- The names that members add to a scope. -/
def scopeOfMembers (base : Int) : List MemberLayout → List ScopeEntry
  | [] => []
  | x :: xs => x.scope base ++ scopeOfMembers base xs

/-- The names that a member adds to a scope: its own, or those of its fields when it has none.
Promoted fields are passed over, since their own member adds them. -/
def MemberLayout.scope (base : Int) : MemberLayout → List ScopeEntry
  | ⟨_, name, type, byteOffset, size, _, bits, _, promoted, layout, sizeIsFlag⟩ =>
    if promoted then []
    else
      match name with
      | some name =>
        [{ name
           entry :=
            { path := [some name]
              type
              byteOffset := base + byteOffset
              bits
              storageSize := if bits.isSome then some (.shown size sizeIsFlag) else none
              layout }
           below := tableBelow layout }]
      -- The fields of an unnamed member belong to the scope around it.
      | none => (scopeBelow (base + byteOffset) layout).map ScopeEntry.throughAnonymous

/-- The names of the scope of a nested layout, if there is one. -/
def scopeBelow (base : Int) : Option LayoutResult → List ScopeEntry
  | none => []
  | some r => r.scope base

/-- The table of a nested layout, if there is one. -/
def tableBelow : Option LayoutResult → Except Failure NameTable
  | none => .ok []
  | some r => tableOfScope (r.scope 0)
end

/-- The table of the names that are visible in a layout. -/
def LayoutResult.nameTable (r : LayoutResult) : Except Failure NameTable :=
  tableOfScope (r.scope 0)

end RecordLayout
