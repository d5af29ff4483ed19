import RecordLayout.Layout.NameTable
import RecordLayout.Proofs.Outcome

/-!
# What the name table says of a scope

A table begins as the names of a scope, no two of them alike.  The names of nested fields are
written into it afterwards, dotted and without asking whether the scope has a name that is spelled
the same.  Where no two names meet in this way, each name of the scope keeps its own place.

## Main definitions

* `LayoutResult.NamesApart`: no name of the scope is spelled as the dotted name of a nested field.

## Main results

* `LayoutResult.scope_eq`: the scope of a layout comes from the members declared in it;
* `LayoutResult.namesApart_of_no_dot`: names without dots never meet;
* `LayoutResult.get?_nameTable`: names that do not meet keep their places.
-/

namespace RecordLayout

/-! ## Tables -/

namespace NameTable

variable {name k : String} {entry e : NameEntry} {table table' : NameTable}

theorem get?_append : get? k (table ++ table') = (get? k table).or (get? k table') := by
  induction table with
  | nil => rfl
  | cons x table ih =>
    simp only [List.cons_append, get?]
    split
    · rfl
    · exact ih

/-- A name that is written has the entry that is written. -/
theorem get?_put : get? name (put name entry table) = some entry := by
  induction table with
  | nil => simp [put, get?]
  | cons x table ih =>
    obtain ⟨key, value⟩ := x
    unfold put
    split
    · rename_i hkey
      simp [get?, hkey]
    · rename_i hkey
      simp only [get?, if_neg hkey, ih]

/-- Writing a name leaves the others alone. -/
theorem get?_put_of_ne (h : k ≠ name) : get? k (put name entry table) = get? k table := by
  induction table with
  | nil => simp [put, get?, h.symm]
  | cons x table ih =>
    obtain ⟨key, value⟩ := x
    unfold put
    split
    · rename_i hkey
      subst hkey
      simp [get?, h.symm]
    · simp only [get?, ih]

/-- Writing several names leaves all others alone. -/
theorem get?_foldl_put {α : Type} {xs : List α} {key : α → String} {value : α → NameEntry}
    (h : ∀ x ∈ xs, k ≠ key x) :
    get? k (xs.foldl (fun table x => put (key x) (value x) table) table) = get? k table := by
  induction xs generalizing table with
  | nil => rfl
  | cons x xs ih =>
    rw [List.forall_mem_cons] at h
    rw [List.foldl_cons, ih h.2, get?_put_of_ne h.1]

/-- Writing a name loses no other. -/
theorem isSome_get?_put (h : (get? k table).isSome) : (get? k (put name entry table)).isSome := by
  by_cases hk : k = name
  · subst hk
    rw [get?_put]
    rfl
  · rwa [get?_put_of_ne hk]

end NameTable

/-! ## The table of a scope -/

/-- A name is not spelled as the dotted name of anything below an entry. -/
def ScopeEntry.SparesName (e : ScopeEntry) (name : String) : Prop :=
  ∀ below, e.below = .ok below → ∀ sub ∈ below, name ≠ e.name ++ "." ++ sub.1

section Scope

variable {scope : List ScopeEntry} {table table' : NameTable} {k : String}

/-- The table with the name of one more entry of the scope. -/
def addName (table : NameTable) (e : ScopeEntry) : Except Failure NameTable :=
  match NameTable.get? e.name table with
  | some first =>
    .error (.layout ⟨.duplicateMember e.name first.pathText e.entry.pathText, [e.name]⟩)
  | none => .ok (table ++ [(e.name, e.entry)])

theorem distinctNames_eq (scope : List ScopeEntry) :
    distinctNames scope = scope.foldlM addName [] := rfl

/-- A name that is added is new: it has its own entry, and the others keep theirs. -/
theorem get?_addName {e : ScopeEntry} (h : addName table e = .ok table') :
    NameTable.get? e.name table' = some e.entry ∧
      ∀ k entry, NameTable.get? k table = some entry → NameTable.get? k table' = some entry := by
  unfold addName at h
  split at h
  · cases h
  · rename_i hnew
    obtain rfl := Except.ok.inj h
    refine ⟨by simp [NameTable.get?_append, hnew, NameTable.get?], fun k entry hk => ?_⟩
    rw [NameTable.get?_append, hk]
    rfl

theorem get?_foldlM_addName (h : scope.foldlM addName table = .ok table') :
    (∀ k entry, NameTable.get? k table = some entry → NameTable.get? k table' = some entry) ∧
      ∀ e ∈ scope, NameTable.get? e.name table' = some e.entry := by
  induction scope generalizing table with
  | nil =>
    obtain rfl := Except.pure_eq_ok.mp h
    exact ⟨fun _ _ h => h, by simp⟩
  | cons e scope ih =>
    rw [List.foldlM_cons] at h
    obtain ⟨next, hnext, h⟩ := Except.bind_eq_ok.mp h
    obtain ⟨hnew, hold⟩ := get?_addName hnext
    obtain ⟨hkept, hscope⟩ := ih h
    exact ⟨fun k entry hk => hkept k entry (hold k entry hk),
      List.forall_mem_cons.mpr ⟨hkept _ _ hnew, hscope⟩⟩

/-- The names of a scope without the names below them: each has its own entry. -/
theorem get?_distinctNames (h : distinctNames scope = .ok table) :
    ∀ e ∈ scope, NameTable.get? e.name table = some e.entry := by
  rw [distinctNames_eq] at h
  exact (get?_foldlM_addName h).2

/-- Writing the names below an entry leaves alone what is spelled otherwise. -/
theorem get?_addBelow {e : ScopeEntry} (h : addBelow table e = .ok table')
    (hspared : e.SparesName k) : NameTable.get? k table' = NameTable.get? k table := by
  obtain ⟨below, hbelow, rfl⟩ := Except.map_eq_ok.mp h
  exact NameTable.get?_foldl_put (hspared below hbelow)

/-- Writing the names below an entry loses no name. -/
theorem isSome_get?_addBelow {e : ScopeEntry} (h : addBelow table e = .ok table')
    (hk : (NameTable.get? k table).isSome) : (NameTable.get? k table').isSome := by
  obtain ⟨below, -, rfl⟩ := Except.map_eq_ok.mp h
  exact List.foldlRecOn (motive := fun t => (NameTable.get? k t).isSome) below _ hk
    fun _ hk _ _ => NameTable.isSome_get?_put hk

theorem get?_foldlM_addBelow (h : scope.foldlM addBelow table = .ok table')
    (hspared : ∀ e ∈ scope, e.SparesName k) :
    NameTable.get? k table' = NameTable.get? k table := by
  induction scope generalizing table with
  | nil =>
    obtain rfl := Except.pure_eq_ok.mp h
    rfl
  | cons e scope ih =>
    rw [List.forall_mem_cons] at hspared
    rw [List.foldlM_cons] at h
    obtain ⟨next, hnext, h⟩ := Except.bind_eq_ok.mp h
    rw [ih h hspared.2, get?_addBelow hnext hspared.1]

end Scope

/-! ## The scope of a layout -/

section Layouts

variable {base : Int} {r n : LayoutResult} {m : MemberLayout}

theorem scopeOfMembers_eq (members : List MemberLayout) :
    scopeOfMembers base members = members.flatMap (MemberLayout.scope base) := by
  induction members with
  | nil => rfl
  | cons m members ih => rw [scopeOfMembers, List.flatMap_cons, ih]

theorem MemberLayout.scope_of_promoted (h : m.promoted = true) : m.scope base = [] := by
  obtain ⟨key, name, type, byteOffset, size, alignment, bits, padding, promoted, layout, flag⟩ := m
  obtain rfl : promoted = true := h
  rfl

theorem LayoutResult.scope_eq_flatMap_members (base : Int) (r : LayoutResult) :
    r.scope base = r.members.flatMap (MemberLayout.scope base) := by
  rw [← scopeOfMembers_eq]
  cases r
  rfl

/-- **The scope of a layout** comes from the members that were declared in it. -/
theorem LayoutResult.scope_eq (base : Int) (r : LayoutResult) :
    r.scope base = r.direct.flatMap (MemberLayout.scope base) := by
  rw [scope_eq_flatMap_members, LayoutResult.direct]
  induction r.members with
  | nil => rfl
  | cons m members ih =>
    rw [List.flatMap_cons, List.filter_cons, ih]
    cases hm : m.promoted with
    | true => simp [MemberLayout.scope_of_promoted hm]
    | false => simp

/-- The entry of a member under its own name. -/
def MemberLayout.entry (base : Int) (name : String) (m : MemberLayout) : NameEntry where
  path := [some name]
  type := m.type
  byteOffset := base + m.byteOffset
  bits := m.bits
  storageSize := if m.bits.isSome then some m.shownSize else none
  layout := m.layout

/-- A named member adds its own name. -/
theorem MemberLayout.scope_of_name {name : String} (hdirect : m.promoted = false)
    (hname : m.name = some name) :
    m.scope base = [⟨name, m.entry base name, tableBelow m.layout⟩] := by
  obtain ⟨key, _, type, byteOffset, size, alignment, bits, padding, promoted, layout, flag⟩ := m
  obtain rfl : promoted = false := hdirect
  obtain rfl : _ = some name := hname
  rfl

/-- An unnamed member adds the names of its fields. -/
theorem MemberLayout.scope_of_layout (hdirect : m.promoted = false) (hname : m.name = none)
    (hlayout : m.layout = some n) :
    m.scope base = (n.scope (base + m.byteOffset)).map ScopeEntry.throughAnonymous := by
  obtain ⟨key, _, type, byteOffset, size, alignment, bits, padding, promoted, _, flag⟩ := m
  obtain rfl : promoted = false := hdirect
  obtain rfl : _ = none := hname
  obtain rfl : _ = some n := hlayout
  rfl

/-- An unnamed member that is no aggregate adds nothing. -/
theorem MemberLayout.scope_of_layout_none (hname : m.name = none) (hlayout : m.layout = none) :
    m.scope base = [] := by
  obtain ⟨key, _, type, byteOffset, size, alignment, bits, padding, promoted, _, flag⟩ := m
  obtain rfl : _ = none := hname
  obtain rfl : _ = none := hlayout
  cases promoted <;> rfl

/-- Where an entry of a scope comes from: it is that of a named member, or one of the scope of an
unnamed member. -/
theorem LayoutResult.mem_scope_cases {e : ScopeEntry} (h : e ∈ r.scope base) :
    ∃ m ∈ r.direct,
      (∃ name, m.name = some name ∧ e = ⟨name, m.entry base name, tableBelow m.layout⟩) ∨
      (m.name = none ∧ ∃ n, m.layout = some n ∧
        ∃ inner ∈ n.scope (base + m.byteOffset), e = inner.throughAnonymous) := by
  rw [scope_eq] at h
  obtain ⟨m, hm, he⟩ := List.mem_flatMap.mp h
  have hdirect : m.promoted = false := by simpa using (List.mem_filter.mp hm).2
  refine ⟨m, hm, ?_⟩
  cases hname : m.name with
  | some name =>
    rw [MemberLayout.scope_of_name hdirect hname, List.mem_singleton] at he
    exact .inl ⟨name, rfl, he⟩
  | none =>
    cases hlayout : m.layout with
    | none =>
      rw [MemberLayout.scope_of_layout_none hname hlayout] at he
      cases he
    | some n =>
      rw [MemberLayout.scope_of_layout hdirect hname hlayout] at he
      obtain ⟨inner, hinner, rfl⟩ := List.mem_map.mp he
      exact .inr ⟨rfl, n, rfl, inner, hinner, rfl⟩

/-- No name of the scope is spelled as the dotted name of a nested field. -/
def LayoutResult.NamesApart (r : LayoutResult) : Prop :=
  ∀ e ∈ r.scope 0, ∀ outer ∈ r.scope 0, outer.SparesName e.name

/-- **Names without dots never meet** the dotted ones. -/
theorem LayoutResult.namesApart_of_no_dot (h : ∀ e ∈ r.scope 0, '.' ∉ e.name.toList) :
    r.NamesApart := by
  intro e he outer _ below _ sub _ hname
  refine h e he ?_
  rw [hname]
  simp

/-- **A name of the scope is found with its own place**, where it meets no dotted one. -/
theorem LayoutResult.get?_nameTable {table : NameTable} (h : r.nameTable = .ok table)
    (hnames : r.NamesApart) : ∀ e ∈ r.scope 0, NameTable.get? e.name table = some e.entry := by
  obtain ⟨names, hdistinct, hbelow⟩ := Except.bind_eq_ok.mp h
  intro e he
  rw [get?_foldlM_addBelow hbelow (hnames e he)]
  exact get?_distinctNames hdistinct e he

/-- **A name of the scope is found**, with its own place or with that of a dotted name that it
meets. -/
theorem LayoutResult.isSome_get?_nameTable {table : NameTable} (h : r.nameTable = .ok table) :
    ∀ e ∈ r.scope 0, (NameTable.get? e.name table).isSome := by
  obtain ⟨names, hdistinct, hbelow⟩ := Except.bind_eq_ok.mp h
  intro e he
  refine Except.foldlM_induction (P := fun t => (NameTable.get? e.name t).isSome) hbelow ?_
    fun _ _ _ _ hadd ht => isSome_get?_addBelow hadd ht
  rw [get?_distinctNames hdistinct e he]
  rfl

end Layouts

end RecordLayout
