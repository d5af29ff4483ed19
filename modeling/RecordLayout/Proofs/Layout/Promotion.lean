import RecordLayout.Proofs.Layout.EngineWellFormed
import RecordLayout.Proofs.Layout.Names
import RecordLayout.Proofs.Layout.Nesting

/-!
# Promotion and the name table

The fields of unnamed members are promoted twice.  The walk over the members copies them into the
list of the aggregate around; the name table passes these copies over and goes into the unnamed
members itself.  Both come to the same fields in the same order.

Every entry of a table, dotted or not, is that of a field at the end of a chain of direct members.
Its path names the members of the chain, its offset is the sum of theirs, and the key under which it
stands is what the path spells.

## Main definitions

* `Field` is what is visible of a named member;
* `NameEntry.LeadsTo` says that an entry is that of the field at the end of a chain.

## Main results

* `WellLaid.scope_fields`: the scope of a layout has its named members, in order;
* `LayoutResult.isGenuine_scope`: the entries of a scope are those of fields;
* `LayoutResult.spells_of_nameTable`: so are those of a table, under the names of their paths;
* `Engine.scope_fields_of_layout`: the scopes of the layouts of an engine.
-/

namespace RecordLayout

/-! ## Visible fields -/

/-- What is visible of a named member: its name and type, where it starts, and its bits. -/
structure Field where
  name : String
  type : TypeNode
  byteOffset : Int
  bits : Option BitRange

/-- The field in a scope that starts `base` bytes before its own. -/
def Field.moved (base : Int) (f : Field) : Field :=
  { f with byteOffset := base + f.byteOffset }

/-- The field of an entry of a scope. -/
def ScopeEntry.field (e : ScopeEntry) : Field :=
  ⟨e.name, e.entry.type, e.entry.byteOffset, e.entry.bits⟩

/-- The field of a member that has a name. -/
def MemberLayout.field? (m : MemberLayout) : Option Field :=
  m.name.map fun name => ⟨name, m.type, m.byteOffset, m.bits⟩

/-- The fields of the named members of a layout, promoted ones included. -/
def LayoutResult.fields (r : LayoutResult) : List Field := r.members.filterMap MemberLayout.field?

section Fields

variable {base offset : Int} {r n : LayoutResult} {m : MemberLayout}

@[simp] theorem Field.map_moved_moved (fs : List Field) :
    (fs.map (moved offset)).map (moved base) = fs.map (moved (base + offset)) := by
  rw [List.map_map]
  refine List.map_congr_left fun f _ => ?_
  simp [moved, Int.add_assoc]

@[simp] theorem Field.moved_zero : Field.moved 0 = id := by
  funext f
  simp [moved]

@[simp] theorem ScopeEntry.map_field_throughAnonymous (scope : List ScopeEntry) :
    (scope.map throughAnonymous).map field = scope.map field :=
  List.map_map

theorem MemberLayout.field?_eq_none_iff : m.field? = none ↔ m.name = none := by
  simp [field?]

theorem MemberLayout.field?_translated (m : MemberLayout) :
    (m.translated base).field? = m.field?.map (Field.moved base) := by
  unfold field?
  rw [Option.map_map]
  refine Option.map_congr fun name _ => ?_
  simp only [Function.comp_apply, Field.moved, Field.mk.injEq, true_and]
  exact ⟨rfl, Int.add_comm m.byteOffset base, rfl⟩

/-- The fields promoted from a layout are its own, as they are seen around it. -/
theorem filterMap_field?_promotedFrom (offset : Int) (n : LayoutResult) :
    (promotedFrom offset n).filterMap MemberLayout.field? = n.fields.map (Field.moved offset) := by
  rw [promotedFrom, List.filterMap_map, List.filterMap_filter, LayoutResult.fields,
    List.map_filterMap]
  refine List.filterMap_congr fun m _ => ?_
  rw [Function.comp_apply, MemberLayout.field?_translated]
  cases h : m.name <;> simp [MemberLayout.field?, h]

theorem MemberLayout.scope_fields_of_name {name : String} (hdirect : m.promoted = false)
    (hname : m.name = some name) :
    (m.scope base).map ScopeEntry.field = (m.field?.map (Field.moved base)).toList := by
  simp [scope_of_name hdirect hname, field?, hname, ScopeEntry.field, MemberLayout.entry,
    Field.moved]

theorem flatMap_scope_of_promoted {ms : List MemberLayout} (h : ∀ m ∈ ms, m.promoted = true) :
    ms.flatMap (MemberLayout.scope base) = [] :=
  List.flatMap_eq_nil_iff.mpr fun m hm => MemberLayout.scope_of_promoted (h m hm)

/-- **One slot** has the same fields either way, if the layout of its member has. -/
theorem Slot.Promotes.scope_fields {t : Slot} (h : t.Promotes) (hlisted : t.listed = true)
    (nested : ∀ n, t.placed.layout = some n →
      ∀ base, (n.scope base).map ScopeEntry.field = n.fields.map (Field.moved base)) :
    (t.members.flatMap (MemberLayout.scope base)).map ScopeEntry.field =
      (t.members.filterMap MemberLayout.field?).map (Field.moved base) := by
  -- The scope passes over the copies, so that on the left only the member itself counts.
  rw [Slot.members, if_pos hlisted, List.flatMap_cons, List.map_append,
    flatMap_scope_of_promoted fun f hf => (h.inside f hf).1]
  have hfields := h.fields
  cases hname : t.placed.name with
  | some name =>
    simp only [hname] at hfields
    rw [hfields, MemberLayout.scope_fields_of_name h.direct hname]
    simp [MemberLayout.field?, hname]
  | none =>
    rw [List.filterMap_cons_none (MemberLayout.field?_eq_none_iff.mpr hname)]
    cases hlayout : t.placed.layout with
    | none =>
      simp only [hname, hlayout] at hfields
      rw [hfields, MemberLayout.scope_of_layout_none hname hlayout]
      rfl
    | some n =>
      simp only [hname, hlayout] at hfields
      rw [hfields, filterMap_field?_promotedFrom,
        MemberLayout.scope_of_layout h.direct hname hlayout, List.map_nil,
        List.append_nil, ScopeEntry.map_field_throughAnonymous, Field.map_moved_moved]
      exact nested n hlayout (base + t.placed.byteOffset)

/-- **The scope of a layout has its named members**, promoted ones included, in the same order. -/
theorem WellLaid.scope_fields {p : Profile} {a : Aggregate} (h : WellLaid p a r) (base : Int) :
    (r.scope base).map ScopeEntry.field = r.fields.map (Field.moved base) := by
  induction h generalizing base with
  | @intro a r shape nested ih =>
    -- The members come in slots, each with the copies from its member, so the two lists are
    -- compared slot by slot.
    obtain ⟨slots, hmembers, hpromotes⟩ := shape.promotion
    rw [LayoutResult.scope_eq_flatMap_members, LayoutResult.fields, hmembers, List.flatMap_assoc,
      List.map_flatMap, List.filterMap_flatMap, List.map_flatMap]
    refine List.flatMap_congr fun t ht => ?_
    by_cases hlisted : t.listed = true
    · refine (hpromotes t ht).scope_fields hlisted fun n hn => ?_
      have hmem : t.placed ∈ r.members := by
        rw [hmembers]
        exact List.mem_flatMap.mpr ⟨t, ht, by simp [Slot.members, hlisted]⟩
      obtain ⟨b, hb⟩ := shape.nested t.placed hmem (by rw [hn]; rfl)
      exact ih t.placed hmem b n hb hn
    · simp [Slot.members, hlisted]

/-- A layout without members has no scope. -/
theorem LayoutResult.scope_of_members_nil (h : r.members = []) : r.scope base = [] := by
  rw [scope_eq_flatMap_members, h, List.flatMap_nil]

end Fields

/-! ## Entries of fields -/

/-- An entry is that of the field `m` at the end of a chain, in a scope that starts `base` bytes
before the layout. -/
structure NameEntry.LeadsTo (r : LayoutResult) (base : Int) (ms : List MemberLayout)
    (m : MemberLayout) (e : NameEntry) : Prop where
  chain : MemberChain r ms m
  path : e.path = (ms ++ [m]).map (·.name)
  byteOffset : e.byteOffset = base + chainOffset ms m
  type : e.type = m.type
  bits : e.bits = m.bits
  layout : e.layout = m.layout
  named : m.name.isSome

/-- The name that a path spells: its unnamed parts are passed over. -/
def NameEntry.spelling (e : NameEntry) : String := String.intercalate "." (e.path.filterMap id)

/-- The entry under a key of a table is that of a field, and the key is what its path spells. -/
def LayoutResult.Spells (r : LayoutResult) (x : String × NameEntry) : Prop :=
  x.2.spelling = x.1 ∧ ∃ ms m, x.2.LeadsTo r 0 ms m

/-- An entry of a scope is that of a field that only unnamed members are around, and the table below
it is made of entries of fields of its layout. -/
structure ScopeEntry.IsGenuine (r : LayoutResult) (base : Int) (e : ScopeEntry) : Prop where
  leads : ∃ ms m, e.entry.LeadsTo r base ms m ∧ (∀ o ∈ ms, o.name = none) ∧ m.name = some e.name
  below : ∀ table, e.below = .ok table → ∀ sub ∈ table,
    ∃ n, e.entry.layout = some n ∧ n.Spells sub

section Entries

variable {base : Int} {r n : LayoutResult} {o m : MemberLayout} {ms : List MemberLayout}
  {e : NameEntry}

/-- The path of a field goes on inside of its layout. -/
theorem NameEntry.LeadsTo.inside {ms' : List MemberLayout} {m' : MemberLayout} {e' : NameEntry}
    (h : e.LeadsTo r base ms m) (hlayout : m.layout = some n) (h' : e'.LeadsTo n 0 ms' m') :
    (e.inside e').LeadsTo r base (ms ++ m :: ms') m' where
  chain := h.chain.append hlayout h'.chain
  path := by simp [NameEntry.inside, h.path, h'.path]
  byteOffset := by
    simp only [NameEntry.inside, h.byteOffset, h'.byteOffset, chainOffset_append, Int.zero_add]
    exact Int.add_assoc _ _ _
  type := h'.type
  bits := h'.bits
  layout := h'.layout
  named := h'.named

/-- A field of an unnamed member is one of the scope around it. -/
theorem NameEntry.LeadsTo.under (h : e.LeadsTo n (base + o.byteOffset) ms m) (ho : o ∈ r.direct)
    (hlayout : o.layout = some n) : (e.under o.name).LeadsTo r base (o :: ms) m where
  chain := .into ho hlayout h.chain
  path := by simp [NameEntry.under, h.path]
  byteOffset := by
    rw [chainOffset_cons, ← Int.add_assoc]
    exact h.byteOffset
  type := h.type
  bits := h.bits
  layout := h.layout
  named := h.named

/-- A path that ends in a field spells something. -/
theorem NameEntry.LeadsTo.filterMap_path_ne_nil (h : e.LeadsTo r base ms m) :
    e.path.filterMap id ≠ [] := by
  obtain ⟨name, hname⟩ := Option.isSome_iff_exists.mp h.named
  rw [h.path, List.map_append, List.filterMap_append]
  simp [hname]

theorem ScopeEntry.IsGenuine.filterMap_path {e : ScopeEntry} (h : e.IsGenuine r base) :
    e.entry.path.filterMap id = [e.name] := by
  obtain ⟨ms, m, hleads, hunnamed, hname⟩ := h.leads
  have hms : (ms.map (·.name)).filterMap id = [] :=
    List.filterMap_eq_nil_iff.mpr fun _ ho =>
      have ⟨o, ho, heq⟩ := List.mem_map.mp ho
      heq ▸ hunnamed o ho
  rw [hleads.path, List.map_append, List.filterMap_append, hms]
  simp [hname]

/-- The name of a field is what its path in the scope spells. -/
theorem ScopeEntry.IsGenuine.spells {e : ScopeEntry} (h : e.IsGenuine r 0) :
    r.Spells (e.name, e.entry) := by
  obtain ⟨ms, m, hleads, -⟩ := h.leads
  refine ⟨?_, ms, m, hleads⟩
  rw [NameEntry.spelling, h.filterMap_path, String.intercalate_singleton]

/-- The dotted name of a field of a field is what its path spells. -/
theorem ScopeEntry.IsGenuine.spells_inside {e : ScopeEntry} {sub : String × NameEntry}
    {table : NameTable} (h : e.IsGenuine r 0) (htable : e.below = .ok table) (hsub : sub ∈ table) :
    r.Spells (e.name ++ "." ++ sub.1, e.entry.inside sub.2) := by
  obtain ⟨ms, m, hleads, -⟩ := h.leads
  obtain ⟨n, hn, hspelling, ms', m', hinner⟩ := h.below table htable sub hsub
  refine ⟨?_, _, m', hleads.inside (hleads.layout ▸ hn) hinner⟩
  have hpath : (e.entry.inside sub.2).path.filterMap id = [e.name] ++ sub.2.path.filterMap id := by
    rw [← h.filterMap_path]
    exact List.filterMap_append
  rw [NameEntry.spelling, hpath,
    String.intercalate_append_of_ne_nil (by simp) hinner.filterMap_path_ne_nil,
    String.intercalate_singleton]
  exact congrArg (e.name ++ "." ++ ·) hspelling

end Entries

/-! ## Entries of tables -/

section Tables

variable {P : String × NameEntry → Prop} {table table' : NameTable} {scope : List ScopeEntry}

theorem NameTable.forall_mem_put {name : String} {entry : NameEntry} (h : ∀ x ∈ table, P x)
    (hnew : P (name, entry)) : ∀ x ∈ NameTable.put name entry table, P x := by
  induction table with
  | nil => exact List.forall_mem_singleton.mpr hnew
  | cons x table ih =>
    obtain ⟨k, old⟩ := x
    rw [List.forall_mem_cons] at h
    unfold NameTable.put
    split
    · rename_i hk
      exact List.forall_mem_cons.mpr ⟨hk ▸ hnew, h.2⟩
    · exact List.forall_mem_cons.mpr ⟨h.1, ih h.2⟩

theorem NameTable.forall_mem_foldl_put {α : Type} {xs : List α} {key : α → String}
    {value : α → NameEntry} (h : ∀ x ∈ table, P x) (hnew : ∀ y ∈ xs, P (key y, value y)) :
    ∀ x ∈ xs.foldl (fun table y => NameTable.put (key y) (value y) table) table, P x := by
  induction xs generalizing table with
  | nil => exact h
  | cons y xs ih =>
    rw [List.forall_mem_cons] at hnew
    exact ih (NameTable.forall_mem_put h hnew.1) hnew.2

theorem forall_mem_addName {e : ScopeEntry} (hadd : addName table e = .ok table')
    (h : ∀ x ∈ table, P x) (hnew : P (e.name, e.entry)) : ∀ x ∈ table', P x := by
  unfold addName at hadd
  split at hadd
  · cases hadd
  · obtain rfl := Except.ok.inj hadd
    exact List.forall_mem_append.mpr ⟨h, List.forall_mem_singleton.mpr hnew⟩

theorem forall_mem_addBelow {e : ScopeEntry} (hadd : addBelow table e = .ok table')
    (h : ∀ x ∈ table, P x)
    (hnew : ∀ below, e.below = .ok below → ∀ sub ∈ below,
      P (e.name ++ "." ++ sub.1, e.entry.inside sub.2)) : ∀ x ∈ table', P x := by
  obtain ⟨below, hbelow, rfl⟩ := Except.map_eq_ok.mp hadd
  exact NameTable.forall_mem_foldl_put h (hnew below hbelow)

/-- What holds of the names of a scope and of all names below them holds of the table. -/
theorem forall_mem_tableOfScope (htable : tableOfScope scope = .ok table)
    (hname : ∀ e ∈ scope, P (e.name, e.entry))
    (hbelow : ∀ e ∈ scope, ∀ below, e.below = .ok below → ∀ sub ∈ below,
      P (e.name ++ "." ++ sub.1, e.entry.inside sub.2)) : ∀ x ∈ table, P x := by
  obtain ⟨names, hnames, htable⟩ := Except.bind_eq_ok.mp htable
  rw [distinctNames_eq] at hnames
  have hdistinct : ∀ x ∈ names, P x :=
    Except.foldlM_induction (P := fun t => ∀ x ∈ t, P x) hnames (by simp)
      fun e he _ _ hadd ht => forall_mem_addName hadd ht (hname e he)
  exact Except.foldlM_induction (P := fun t => ∀ x ∈ t, P x) htable hdistinct
    fun e he _ _ hadd ht => forall_mem_addBelow hadd ht (hbelow e he)

end Tables

section Layouts

variable {r : LayoutResult}

/-- The table of a scope whose entries are those of fields is made of entries of fields. -/
theorem spells_of_tableOfScope {scope : List ScopeEntry} {table : NameTable}
    (h : tableOfScope scope = .ok table) (hscope : ∀ e ∈ scope, e.IsGenuine r 0) :
    ∀ x ∈ table, r.Spells x :=
  forall_mem_tableOfScope h (fun e he => (hscope e he).spells) fun e he _ hbelow _ hsub =>
    (hscope e he).spells_inside hbelow hsub

/-- **The entries of a scope are those of fields**, and so are the entries of the tables below. -/
theorem LayoutResult.isGenuine_scope (r : LayoutResult) :
    ∀ base, ∀ e ∈ r.scope base, e.IsGenuine r base := by
  -- A scope goes into the layouts of unnamed members, and the tables below it into those of named
  -- ones.  Both are nested, so one induction has both.
  refine r.nested_induction (motive := fun r => ∀ base, ∀ e ∈ r.scope base, e.IsGenuine r base)
    fun r ih base e he => ?_
  obtain ⟨m, hm, ⟨name, hname, rfl⟩ | ⟨hname, n, hlayout, inner, hinner, rfl⟩⟩ := mem_scope_cases he
  · refine ⟨⟨[], m, ⟨.direct hm, by simp [MemberLayout.entry, hname], by simp [MemberLayout.entry],
      rfl, rfl, rfl, by simp [hname]⟩, by simp, hname⟩, fun table htable sub hsub => ?_⟩
    dsimp only at htable
    cases hlayout : m.layout with
    | none =>
      rw [hlayout] at htable
      cases htable
      cases hsub
    | some n =>
      rw [hlayout] at htable
      have hgenuine := ih m (mem_direct.mp hm).1 n hlayout 0
      exact ⟨n, hlayout, spells_of_tableOfScope htable hgenuine sub hsub⟩
  · have hgenuine := ih m (mem_direct.mp hm).1 n hlayout _ inner hinner
    obtain ⟨ms, f, hleads, hunnamed, hfield⟩ := hgenuine.leads
    have hunder := hleads.under hm hlayout
    rw [hname] at hunder
    exact ⟨⟨m :: ms, f, hunder, List.forall_mem_cons.mpr ⟨hname, hunnamed⟩, hfield⟩,
      hgenuine.below⟩

/-- **The entries of a table are those of fields**, under the names that their paths spell. -/
theorem LayoutResult.spells_of_nameTable {table : NameTable} (h : r.nameTable = .ok table) :
    ∀ x ∈ table, r.Spells x :=
  spells_of_tableOfScope h (r.isGenuine_scope 0)

end Layouts

/-! ## Layouts of an engine -/

section Engines

variable {channels : Channels} {limit : Option Int} {calls : List Engine.Call} {p : Profile}
  {node : TypeNode} {r : LayoutResult}

/-- The scope of a layout that an engine answers with has its named members, in order. -/
theorem Engine.scope_fields_of_layout
    (h : ((layout p node).run ((make channels limit).replay calls)).1 = .ok r) :
    (r.scope 0).map ScopeEntry.field = r.fields := by
  have hkeeps := keeps_of_layout wellLaid_keepable
    (fun p => (wellLaid_invariant p).and (selfKey_invariant p)) h
  by_cases hnode : ∃ a, node = .aggregate a
  · obtain ⟨a, rfl⟩ := hnode
    have hfields := (hkeeps.aggregate a rfl).1.scope_fields 0
    rwa [Field.moved_zero, List.map_id] at hfields
  · have hmembers := hkeeps.memberless (not_exists.mp hnode)
    rw [LayoutResult.scope_of_members_nil hmembers, LayoutResult.fields, hmembers]
    rfl

/-- **Promotion and the name table agree** in the layouts of an engine, after any calls, and all
entries of the table are those of fields. -/
theorem Engine.names_agree
    (h : ((layout p node).run ((make channels limit).replay calls)).1 = .ok r) :
    (r.scope 0).map ScopeEntry.field = r.fields ∧
      ∀ table, r.nameTable = .ok table → ∀ x ∈ table, r.Spells x :=
  ⟨scope_fields_of_layout h, fun _ htable => LayoutResult.spells_of_nameTable htable⟩

end Engines

/-- An event with a header and, in an unnamed union, a code or an unnamed pair of characters. -/
def event : Aggregate where
  kind := .struct
  members :=
    [⟨.aggregate Engine.header, some "head", .none⟩,
     ⟨.aggregate
        { kind := .union
          members :=
            [⟨.primitive ⟨"int", some (.int 4), none⟩, some "code", .none⟩,
             ⟨.aggregate
                { kind := .struct
                  members :=
                    [⟨.primitive ⟨"char", some (.int 1), none⟩, some "class", .none⟩,
                     ⟨.primitive ⟨"char", some (.int 1), none⟩, some "level", .none⟩]
                  name := none
                  pack := none
                  attributes := .none
                  origin := .written ["event", "1", "1"] }, none, .none⟩]
          name := none
          pack := none
          attributes := .none
          origin := .written ["event", "1"] }, none, .none⟩]
  name := some "event"
  pack := none
  attributes := .none
  origin := .written ["event"]

/-- Promotion and the name table agree in an event: four fields are visible in it, and the table
has two more, those of the header. -/
theorem Engine.names_agree_event :
    ∃ r table, ((layout .sysvX8664 (.aggregate event)).run ((make [] none).replay
        [.layout .sysvX8664 (.aggregate header)])).1 = .ok r ∧
      (r.scope 0).map ScopeEntry.field = r.fields ∧ r.fields.length = 4 ∧
      r.nameTable = .ok table ∧ table.length = 6 ∧ ∀ x ∈ table, r.Spells x := by
  have hok : ((layout .sysvX8664 (.aggregate event)).run ((make [] none).replay
      [.layout .sysvX8664 (.aggregate header)])).1.toOption.map (fun r =>
        (r.fields.length, r.nameTable.toOption.map List.length)) = some (4, some 6) := by
    decide +kernel
  cases hr : ((layout .sysvX8664 (.aggregate event)).run ((make [] none).replay
      [.layout .sysvX8664 (.aggregate header)])).1 with
  | error f =>
    rw [hr] at hok
    cases hok
  | ok r =>
    rw [hr] at hok
    obtain ⟨hfields, hlength⟩ := Prod.mk.inj (Option.some.inj hok)
    obtain ⟨table, htable, hlength⟩ := Option.map_eq_some_iff.mp hlength
    have htable := Except.toOption_eq_some.mp htable
    obtain ⟨hagree, hspells⟩ := names_agree hr
    exact ⟨r, table, rfl, hagree, hfields, htable, hlength, hspells table htable⟩

end RecordLayout
