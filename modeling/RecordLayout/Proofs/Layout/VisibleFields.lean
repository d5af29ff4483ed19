import Mathlib
import RecordLayout.Document.Basic
import RecordLayout.Proofs.Layout.Promotion

/-!
# Fields that the name table keeps

Every named member of a layout is visible under a key: its name, behind the names of the named
members around it.  The table is built scope by scope.  The names of one scope are compared with
each other, and two that are alike are an error.  The keys of the scopes below are written into the
table without a comparison, so a name that is spelled like such a key is lost without an error.
Names without dots are never spelled like one, and for them the table keeps every field.

## Main definitions

* `LayoutResult.visible` lists the visible fields of a layout with their keys;
* `LayoutResult.Enters` relates a layout to the layouts whose scopes are part of its table;
* `LayoutResult.HasPlainNames` says that no visible field has a dot in the names that lead to it.

## Main results

* `LayoutResult.visible_eq`: the visible fields, scope by scope;
* `tableOfScope_eq_ok`, `tableOfScope_eq_error`: when the table of a scope is built;
* `LayoutResult.nameTable_perm_visible`: distinct keys all come into the table;
* `LayoutResult.nameTable_visible`: what the name table does with the visible fields.
-/

namespace RecordLayout

/-! ## Visible fields -/

/-- The fields of a named member as they are visible around it: behind its name. -/
def dotted (name : String) (outer : NameEntry) (x : String × NameEntry) : String × NameEntry :=
  (name ++ "." ++ x.1, outer.inside x.2)

mutual
/-- The visible fields of a layout that starts at `base`, with their keys: its named direct members,
those of the layouts of unnamed members under the same keys, and those of the layouts of named
members behind the names of these. -/
def LayoutResult.visible (base : Int) : LayoutResult → List (String × NameEntry)
  | ⟨_, _, _, _, members, _, _⟩ => visibleOfMembers base members

/-- The visible fields that members add. -/
def visibleOfMembers (base : Int) : List MemberLayout → List (String × NameEntry)
  | [] => []
  | x :: xs => x.visible base ++ visibleOfMembers base xs

/-- The visible fields that a member adds.  The copies of promoted fields are no fields of their
own. -/
def MemberLayout.visible (base : Int) : MemberLayout → List (String × NameEntry)
  | ⟨key, name, type, byteOffset, size, alignment, bits, padding, promoted, layout, sizeIsFlag⟩ =>
    if promoted then []
    else
      match name with
      | some name =>
        let entry := MemberLayout.entry base name
          ⟨key, name, type, byteOffset, size, alignment, bits, padding, promoted, layout,
            sizeIsFlag⟩
        (name, entry) :: (visibleBelow 0 layout).map (dotted name entry)
      | none => (visibleBelow (base + byteOffset) layout).map fun x => (x.1, x.2.under none)

/-- The visible fields of a nested layout, if there is one. -/
def visibleBelow (base : Int) : Option LayoutResult → List (String × NameEntry)
  | none => []
  | some r => r.visible base
end

/-- The visible fields of an entry of a scope: its own, and those of its layout behind its name. -/
def ScopeEntry.visible (e : ScopeEntry) : List (String × NameEntry) :=
  (e.name, e.entry) :: (visibleBelow 0 e.entry.layout).map (dotted e.name e.entry)

section Visible

variable {base : Int} {r n : LayoutResult} {m : MemberLayout}

theorem visibleOfMembers_eq (members : List MemberLayout) :
    visibleOfMembers base members = members.flatMap (MemberLayout.visible base) := by
  induction members with
  | nil => rfl
  | cons m members ih => rw [visibleOfMembers, List.flatMap_cons, ih]

theorem LayoutResult.visible_eq_flatMap_members (base : Int) (r : LayoutResult) :
    r.visible base = r.members.flatMap (MemberLayout.visible base) := by
  rw [← visibleOfMembers_eq]
  cases r
  rfl

theorem MemberLayout.visible_of_promoted (h : m.promoted = true) : m.visible base = [] := by
  obtain ⟨key, name, type, byteOffset, size, alignment, bits, padding, promoted, layout, flag⟩ := m
  obtain rfl : promoted = true := h
  rfl

theorem MemberLayout.visible_of_name {name : String} (hdirect : m.promoted = false)
    (hname : m.name = some name) :
    m.visible base = (name, m.entry base name) ::
      (visibleBelow 0 m.layout).map (dotted name (m.entry base name)) := by
  obtain ⟨key, _, type, byteOffset, size, alignment, bits, padding, promoted, layout, flag⟩ := m
  obtain rfl : promoted = false := hdirect
  obtain rfl : _ = some name := hname
  rfl

theorem MemberLayout.visible_of_name_none (hdirect : m.promoted = false) (hname : m.name = none) :
    m.visible base = (visibleBelow (base + m.byteOffset) m.layout).map
      fun x => (x.1, x.2.under none) := by
  obtain ⟨key, _, type, byteOffset, size, alignment, bits, padding, promoted, layout, flag⟩ := m
  obtain rfl : promoted = false := hdirect
  obtain rfl : _ = none := hname
  rfl

/-- The visible fields of an entry, as they are seen through an unnamed member. -/
theorem ScopeEntry.visible_throughAnonymous (e : ScopeEntry) :
    e.throughAnonymous.visible = e.visible.map fun x => (x.1, x.2.under none) := by
  rw [visible, visible, List.map_cons, List.map_map]
  rfl

/-- **The visible fields come scope by scope**: those of a layout are those of the entries of its
scope. -/
theorem LayoutResult.visible_eq (r : LayoutResult) :
    ∀ base, r.visible base = (r.scope base).flatMap ScopeEntry.visible := by
  refine r.nested_induction
    (motive := fun r => ∀ base, r.visible base = (r.scope base).flatMap ScopeEntry.visible)
    fun r ih base => ?_
  rw [visible_eq_flatMap_members, scope_eq_flatMap_members, List.flatMap_assoc]
  refine List.flatMap_congr fun m hm => ?_
  cases hpromoted : m.promoted with
  | true => rw [MemberLayout.visible_of_promoted hpromoted, MemberLayout.scope_of_promoted hpromoted,
      List.flatMap_nil]
  | false =>
    cases hname : m.name with
    | some name =>
      rw [MemberLayout.visible_of_name hpromoted hname, MemberLayout.scope_of_name hpromoted hname,
        List.flatMap_singleton]
      rfl
    | none =>
      rw [MemberLayout.visible_of_name_none hpromoted hname]
      cases hlayout : m.layout with
      | none =>
        rw [MemberLayout.scope_of_layout_none hname hlayout]
        rfl
      | some n =>
        rw [MemberLayout.scope_of_layout hpromoted hname hlayout, visibleBelow,
          ih m hm n hlayout, List.map_flatMap, List.flatMap_map]
        exact List.flatMap_congr fun e _ => (ScopeEntry.visible_throughAnonymous e).symm

end Visible

/-! ## Writing into a table -/

namespace NameTable

variable {name k : String} {entry : NameEntry} {table : NameTable} {xs : List (String × NameEntry)}

/-- The keys of a table, in order. -/
def keys (table : List (String × NameEntry)) : List String := table.map (·.1)

@[simp] theorem keys_append (xs ys : List (String × NameEntry)) :
    keys (xs ++ ys) = keys xs ++ keys ys :=
  List.map_append

theorem keys_perm {ys : List (String × NameEntry)} (h : xs.Perm ys) : (keys xs).Perm (keys ys) :=
  h.map _

theorem mem_keys_flatMap {α : Type} {f : α → List (String × NameEntry)} {ys : List α} :
    k ∈ keys (ys.flatMap f) ↔ ∃ y ∈ ys, k ∈ keys (f y) := by
  rw [keys, List.map_flatMap]
  exact List.mem_flatMap

/-- The table after writing several names, one after another. -/
def putAll (xs : List (String × NameEntry)) (table : NameTable) : NameTable :=
  xs.foldl (fun table x => put x.1 x.2 table) table

theorem get?_eq_none_iff : get? k table = none ↔ k ∉ keys table := by
  induction table with
  | nil => simp [get?, keys]
  | cons x table ih =>
    obtain ⟨key, value⟩ := x
    by_cases hk : key = k
    · simp [get?, keys, hk]
    · rw [get?, if_neg hk, ih]
      simp [keys, Ne.symm hk]

/-- A new name is written at the end. -/
theorem put_of_notMem (h : name ∉ keys table) : put name entry table = table ++ [(name, entry)] := by
  induction table with
  | nil => rfl
  | cons x table ih =>
    obtain ⟨key, value⟩ := x
    rw [keys, List.map_cons, List.mem_cons, not_or] at h
    rw [put, if_neg (Ne.symm h.1), ih h.2, List.cons_append]

/-- A name that is there keeps its place. -/
theorem keys_put_of_mem (h : name ∈ keys table) : keys (put name entry table) = keys table := by
  induction table with
  | nil => exact absurd h List.not_mem_nil
  | cons x table ih =>
    obtain ⟨key, value⟩ := x
    by_cases hk : key = name
    · simp [put, keys, hk]
    · have hmem : name ∈ keys table := by
        simpa [keys, Ne.symm hk] using h
      rw [put, if_neg hk]
      exact congrArg (key :: ·) (ih hmem)

theorem mem_keys_put : k ∈ keys (put name entry table) ↔ k = name ∨ k ∈ keys table := by
  by_cases h : name ∈ keys table
  · rw [keys_put_of_mem h]
    exact (or_iff_right_of_imp fun hk => hk ▸ h).symm
  · rw [put_of_notMem h, keys_append, List.mem_append, or_comm]
    simp [keys]

/-- Writing keeps the keys of a table distinct. -/
theorem nodup_keys_put (h : (keys table).Nodup) : (keys (put name entry table)).Nodup := by
  by_cases hmem : name ∈ keys table
  · rwa [keys_put_of_mem hmem]
  · rw [put_of_notMem hmem, keys_append, List.nodup_append]
    refine ⟨h, List.nodup_singleton name, ?_⟩
    intro k hk k' hname heq
    obtain rfl := List.mem_singleton.mp hname
    exact hmem (heq ▸ hk)

theorem nodup_keys_putAll (h : (keys table).Nodup) : (keys (putAll xs table)).Nodup :=
  List.foldlRecOn (motive := fun t => (keys t).Nodup) xs _ h fun _ ht _ _ => nodup_keys_put ht

theorem mem_keys_putAll : k ∈ keys (putAll xs table) ↔ k ∈ keys table ∨ k ∈ keys xs := by
  induction xs generalizing table with
  | nil => simp [putAll, keys]
  | cons x xs ih =>
    have hkeys : keys (x :: xs) = x.1 :: keys xs := rfl
    rw [putAll, List.foldl_cons, ← putAll, ih, mem_keys_put, hkeys, List.mem_cons]
    exact ⟨fun h => by tauto, fun h => by tauto⟩

/-- Names that are new and distinct are all written at the end. -/
theorem putAll_of_nodup (h : (keys (table ++ xs)).Nodup) : putAll xs table = table ++ xs := by
  induction xs generalizing table with
  | nil => exact (List.append_nil table).symm
  | cons x xs ih =>
    have hnew : x.1 ∉ keys table := by
      rw [keys_append, List.nodup_append] at h
      exact fun hmem => h.2.2 x.1 hmem x.1 List.mem_cons_self rfl
    have hmove : table ++ x :: xs = table ++ [x] ++ xs := by simp
    rw [putAll, List.foldl_cons, ← putAll, put_of_notMem hnew, hmove]
    exact ih (hmove ▸ h)

end NameTable

/-! ## The table of a scope -/

open NameTable (keys putAll)

/-- The names of a scope with their entries. -/
def ownNames (scope : List ScopeEntry) : List (String × NameEntry) :=
  scope.map fun e => (e.name, e.entry)

/-- What the table below an entry adds to the table of its scope. -/
def ScopeEntry.dottedBelow (e : ScopeEntry) : List (String × NameEntry) :=
  (e.below.toOption.getD []).map (dotted e.name e.entry)

section Scope

variable {scope : List ScopeEntry} {table table' : NameTable} {f : Failure}

theorem keys_ownNames (scope : List ScopeEntry) : keys (ownNames scope) = scope.map (·.name) :=
  List.map_map

/-- Distinct names are all entered. -/
theorem foldlM_addName_eq_ok (h : (keys (table ++ ownNames scope)).Nodup) :
    scope.foldlM addName table = .ok (table ++ ownNames scope) := by
  induction scope generalizing table with
  | nil => simp [ownNames, pure, Except.pure]
  | cons e scope ih =>
    have hmove : table ++ ownNames (e :: scope) = table ++ [(e.name, e.entry)] ++ ownNames scope := by
      simp [ownNames]
    have hnew : NameTable.get? e.name table = none := by
      rw [NameTable.get?_eq_none_iff]
      rw [NameTable.keys_append, List.nodup_append] at h
      exact fun hmem => h.2.2 e.name hmem e.name List.mem_cons_self rfl
    have hadd : addName table e = .ok (table ++ [(e.name, e.entry)]) := by
      rw [addName, hnew]
    rw [List.foldlM_cons, hadd, hmove]
    exact ih (hmove ▸ h)

/-- Names that are all entered are distinct. -/
theorem nodup_of_foldlM_addName (h : scope.foldlM addName table = .ok table')
    (htable : (keys table).Nodup) : (keys (table ++ ownNames scope)).Nodup := by
  induction scope generalizing table with
  | nil => simpa [ownNames] using htable
  | cons e scope ih =>
    have hmove : table ++ ownNames (e :: scope) = table ++ [(e.name, e.entry)] ++ ownNames scope := by
      simp [ownNames]
    rw [List.foldlM_cons] at h
    obtain ⟨next, hnext, h⟩ := Except.bind_eq_ok.mp h
    unfold addName at hnext
    split at hnext
    · cases hnext
    · rename_i hnew
      obtain rfl := Except.ok.inj hnext
      have hput : NameTable.put e.name e.entry table = table ++ [(e.name, e.entry)] :=
        NameTable.put_of_notMem (NameTable.get?_eq_none_iff.mp hnew)
      rw [hmove]
      exact ih h (hput ▸ NameTable.nodup_keys_put htable)

/-- A name is refused only as one that comes twice. -/
theorem foldlM_addName_eq_error (h : scope.foldlM addName table = .error f) :
    ∃ name first second, f = .layout ⟨.duplicateMember name first second, [name]⟩ := by
  obtain ⟨before, e, after, table', -, -, hadd⟩ := Except.foldlM_eq_error h
  unfold addName at hadd
  split at hadd
  · exact ⟨_, _, _, (Except.error.inj hadd).symm⟩
  · cases hadd

/-- **The names of a scope** are entered when they are distinct, and else one is refused. -/
theorem distinctNames_eq_ok : distinctNames scope = .ok table ↔
    (scope.map (·.name)).Nodup ∧ table = ownNames scope := by
  have henter (hnodup : (scope.map (·.name)).Nodup) :
      distinctNames scope = .ok (ownNames scope) := by
    rw [distinctNames_eq]
    refine foldlM_addName_eq_ok ?_
    rwa [List.nil_append, keys_ownNames]
  constructor
  · intro h
    have hnodup : (scope.map (·.name)).Nodup := by
      rw [distinctNames_eq] at h
      have hkeys := nodup_of_foldlM_addName h List.nodup_nil
      rwa [List.nil_append, keys_ownNames] at hkeys
    rw [henter hnodup] at h
    exact ⟨hnodup, (Except.ok.inj h).symm⟩
  · rintro ⟨hnodup, rfl⟩
    exact henter hnodup

theorem ScopeEntry.dottedBelow_eq {e : ScopeEntry} (h : e.below = .ok table) :
    e.dottedBelow = table.map (dotted e.name e.entry) := by
  rw [dottedBelow, h]
  rfl

/-- Below an entry whose table is built there is one thing to do: to write its names. -/
theorem addBelow_eq {e : ScopeEntry} (h : ∃ below, e.below = .ok below) (table : NameTable) :
    addBelow table e = .ok (putAll e.dottedBelow table) := by
  obtain ⟨below, hbelow⟩ := h
  rw [addBelow, hbelow, ScopeEntry.dottedBelow_eq hbelow, putAll, List.foldl_map]
  rfl

/-- **The table of a scope is built** when no name comes twice and the tables below are built. -/
theorem tableOfScope_eq_ok : tableOfScope scope = .ok table ↔
    (scope.map (·.name)).Nodup ∧ (∀ e ∈ scope, ∃ below, e.below = .ok below) ∧
      table = putAll (scope.flatMap ScopeEntry.dottedBelow) (ownNames scope) := by
  have hfold (hbelow : ∀ e ∈ scope, ∃ below, e.below = .ok below) (table : NameTable) :
      scope.foldlM addBelow table = .ok (putAll (scope.flatMap ScopeEntry.dottedBelow) table) := by
    rw [Except.foldlM_eq_foldl fun e he table => addBelow_eq (hbelow e he) table, putAll,
      List.foldl_flatMap]
    rfl
  constructor
  · intro h
    obtain ⟨names, hdistinct, h⟩ := Except.bind_eq_ok.mp h
    obtain ⟨hnodup, rfl⟩ := distinctNames_eq_ok.mp hdistinct
    have hbelow : ∀ e ∈ scope, ∃ below, e.below = .ok below := by
      intro e he
      obtain ⟨before, after, rfl⟩ := List.append_of_mem he
      rw [List.foldlM_append] at h
      obtain ⟨middle, -, h⟩ := Except.bind_eq_ok.mp h
      rw [List.foldlM_cons] at h
      obtain ⟨next, hadd, -⟩ := Except.bind_eq_ok.mp h
      obtain ⟨below, hbelow, -⟩ := Except.map_eq_ok.mp hadd
      exact ⟨below, hbelow⟩
    rw [hfold hbelow] at h
    exact ⟨hnodup, hbelow, (Except.ok.inj h).symm⟩
  · rintro ⟨hnodup, hbelow, rfl⟩
    exact Except.bind_eq_ok.mpr ⟨_, distinctNames_eq_ok.mpr ⟨hnodup, rfl⟩, hfold hbelow _⟩

/-- **The table of a scope fails** as one with a name that comes twice, or as a table below. -/
theorem tableOfScope_eq_error (h : tableOfScope scope = .error f) :
    (∃ name first second, f = .layout ⟨.duplicateMember name first second, [name]⟩) ∨
      ∃ e ∈ scope, e.below = .error f := by
  rcases Except.bind_eq_error.mp h with hdistinct | ⟨table, -, hbelow⟩
  · exact .inl (foldlM_addName_eq_error hdistinct)
  · obtain ⟨before, e, after, table', rfl, -, hadd⟩ := Except.foldlM_eq_error hbelow
    exact .inr ⟨e, by simp, Except.map_eq_error.mp hadd⟩

end Scope

/-! ## The tables of layouts -/

section Layouts

variable {base : Int} {r n s : LayoutResult} {e : ScopeEntry}

/-- The table below an entry is that of its layout. -/
theorem LayoutResult.below_of_mem_scope (r : LayoutResult) :
    ∀ base, ∀ e ∈ r.scope base, e.below = tableBelow e.entry.layout := by
  refine r.nested_induction
    (motive := fun r => ∀ base, ∀ e ∈ r.scope base, e.below = tableBelow e.entry.layout)
    fun r ih base e he => ?_
  obtain ⟨m, hm, ⟨name, -, rfl⟩ | ⟨-, n, hlayout, inner, hinner, rfl⟩⟩ := mem_scope_cases he
  · rfl
  · exact ih m (mem_direct.mp hm).1 n hlayout _ inner hinner

/-- **Induction on scopes**: a property of a layout that follows from the same property of the
layouts in its scope holds of all layouts. -/
theorem LayoutResult.scope_induction {motive : LayoutResult → Prop}
    (step : ∀ r, (∀ e ∈ r.scope 0, ∀ n, e.entry.layout = some n → motive n) → motive r)
    (r : LayoutResult) : motive r := by
  -- The scope goes through unnamed members, whose own scopes have to be known as well.
  have hboth := r.nested_induction
    (motive := fun r => motive r ∧ ∀ base, ∀ e ∈ r.scope base, ∀ n, e.entry.layout = some n →
      motive n)
    fun r ih => by
      have hscope : ∀ base, ∀ e ∈ r.scope base, ∀ n, e.entry.layout = some n → motive n := by
        intro base e he n hn
        obtain ⟨m, hm, ⟨name, -, rfl⟩ | ⟨-, k, hlayout, inner, hinner, rfl⟩⟩ := mem_scope_cases he
        · exact (ih m (mem_direct.mp hm).1 n hn).1
        · exact (ih m (mem_direct.mp hm).1 k hlayout).2 _ inner hinner n hn
      exact ⟨step r (hscope 0), hscope⟩
  exact hboth.1

/-- The layouts whose scopes are part of the table of a layout: its own, and those of the layouts in
its scope. -/
inductive LayoutResult.Enters : LayoutResult → LayoutResult → Prop
  | own (r : LayoutResult) : r.Enters r
  | inside {r n s : LayoutResult} {e : ScopeEntry} (entry : e ∈ r.scope 0)
      (layout : e.entry.layout = some n) (enters : n.Enters s) : r.Enters s

/-- Two entries of the scope of a layout have one name. -/
def LayoutResult.RepeatsName (r : LayoutResult) : Prop := ¬ ((r.scope 0).map (·.name)).Nodup

/-- No visible field has a dot in the names that lead to it. -/
def LayoutResult.HasPlainNames (r : LayoutResult) : Prop :=
  ∀ x ∈ r.visible 0, ∀ part ∈ x.2.path, '.' ∉ (part.getD "").toList

instance (r : LayoutResult) : Decidable r.HasPlainNames :=
  inferInstanceAs (Decidable (∀ x ∈ r.visible 0, ∀ part ∈ x.2.path, '.' ∉ (part.getD "").toList))

/-- The table below an entry is built when that of its layout is. -/
theorem exists_below_iff (he : e ∈ r.scope base) :
    (∃ below, e.below = .ok below) ↔
      ∀ n, e.entry.layout = some n → ∃ table, n.nameTable = .ok table := by
  rw [r.below_of_mem_scope base e he]
  cases e.entry.layout with
  | none => simp [tableBelow]
  | some n => simp [tableBelow, LayoutResult.nameTable]

/-- **When the table is built**: when no scope that is part of it repeats a name. -/
theorem LayoutResult.nameTable_eq_ok_iff (r : LayoutResult) :
    (∃ table, r.nameTable = .ok table) ↔ ∀ s, r.Enters s → ¬ s.RepeatsName := by
  induction r using LayoutResult.scope_induction with
  | step r ih =>
    constructor
    · rintro ⟨table, htable⟩ s hs
      obtain ⟨hnames, hbelow, -⟩ := tableOfScope_eq_ok.mp htable
      cases hs with
      | own => exact not_not_intro hnames
      | inside he hn hs => exact (ih _ he _ hn).mp ((exists_below_iff he).mp (hbelow _ he) _ hn) s hs
    · intro h
      refine ⟨_, tableOfScope_eq_ok.mpr ⟨not_not.mp (h r (.own r)), fun e he => ?_, rfl⟩⟩
      refine (exists_below_iff he).mpr fun n hn => ?_
      exact (ih e he n hn).mpr fun s hs => h s (.inside he hn hs)

/-- A table fails only for a name that comes twice. -/
theorem LayoutResult.nameTable_eq_error {f : Failure} (h : r.nameTable = .error f) :
    ∃ name first second, f = .layout ⟨.duplicateMember name first second, [name]⟩ := by
  induction r using LayoutResult.scope_induction with
  | step r ih =>
    rcases tableOfScope_eq_error h with hname | ⟨e, he, hbelow⟩
    · exact hname
    · rw [r.below_of_mem_scope 0 e he] at hbelow
      cases hn : e.entry.layout with
      | none =>
        rw [hn] at hbelow
        cases hbelow
      | some n =>
        rw [hn] at hbelow
        exact ih e he n hn hbelow

/-- The fields inside of an entry of a scope, as they are visible around it. -/
def ScopeEntry.visibleInside (e : ScopeEntry) : List (String × NameEntry) :=
  (visibleBelow 0 e.entry.layout).map (dotted e.name e.entry)

theorem keys_map_dotted (name : String) (outer : NameEntry) (xs : List (String × NameEntry)) :
    keys (xs.map (dotted name outer)) = (keys xs).map (name ++ "." ++ ·) := by
  simp [keys, dotted]

/-- The keys of the fields of an entry: its name, and its name before the keys below. -/
theorem ScopeEntry.keys_visible (e : ScopeEntry) :
    keys e.visible =
      e.name :: (keys (visibleBelow 0 e.entry.layout)).map (e.name ++ "." ++ ·) := by
  rw [← keys_map_dotted]
  rfl

theorem LayoutResult.keys_visible (r : LayoutResult) :
    keys (r.visible base) = (r.scope base).flatMap fun e => keys e.visible := by
  rw [visible_eq]
  exact List.map_flatMap

/-- The visible fields of a layout, with the names of its scope first. -/
theorem LayoutResult.visible_perm (r : LayoutResult) :
    (ownNames (r.scope 0) ++ (r.scope 0).flatMap ScopeEntry.visibleInside).Perm
      (r.visible 0) := by
  rw [visible_eq]
  exact List.map_append_flatMap_perm _ _ _

/-- The fields of a layout in the scope keep their keys apart if all visible fields do. -/
theorem LayoutResult.nodup_keys_inner (he : e ∈ r.scope base) (hn : e.entry.layout = some n)
    (h : (keys (r.visible base)).Nodup) : (keys (n.visible 0)).Nodup := by
  rw [keys_visible, List.nodup_flatMap] at h
  have hentry := h.1 e he
  rw [ScopeEntry.keys_visible, hn] at hentry
  exact (List.nodup_cons.mp hentry).2.of_map _

/-- What relates the table of a nested layout to its visible fields, if there is such a layout. -/
theorem exists_tableBelow {Q : NameTable → List (String × NameEntry) → Prop}
    {layout : Option LayoutResult} (hnone : Q [] [])
    (h : ∀ n, layout = some n → ∃ table, n.nameTable = .ok table ∧ Q table (n.visible 0)) :
    ∃ table, tableBelow layout = .ok table ∧ Q table (visibleBelow 0 layout) := by
  cases layout with
  | none => exact ⟨[], rfl, hnone⟩
  | some n => exact h n rfl

/-- **Distinct keys all come into the table**, each with its own field. -/
theorem LayoutResult.nameTable_perm_visible (h : (keys (r.visible 0)).Nodup) :
    ∃ table, r.nameTable = .ok table ∧ table.Perm (r.visible 0) := by
  induction r using LayoutResult.scope_induction with
  | step r ih =>
    have hbelow : ∀ e ∈ r.scope 0, ∃ table, e.below = .ok table ∧
        table.Perm (visibleBelow 0 e.entry.layout) := by
      intro e he
      rw [r.below_of_mem_scope 0 e he]
      exact exists_tableBelow (.refl _) fun n hn => ih e he n hn (nodup_keys_inner he hn h)
    have hdotted : ∀ e ∈ r.scope 0, e.dottedBelow.Perm e.visibleInside := by
      intro e he
      obtain ⟨table, htable, hperm⟩ := hbelow e he
      rw [ScopeEntry.dottedBelow_eq htable]
      exact hperm.map _
    -- What is written are the visible fields in another order, so that no name is written twice.
    have hperm : (ownNames (r.scope 0) ++ (r.scope 0).flatMap ScopeEntry.dottedBelow).Perm
        (r.visible 0) :=
      ((List.Perm.flatMap_left _ hdotted).append_left _).trans r.visible_perm
    have hwritten : (keys (ownNames (r.scope 0) ++
        (r.scope 0).flatMap ScopeEntry.dottedBelow)).Nodup :=
      (NameTable.keys_perm hperm).nodup_iff.mpr h
    refine ⟨_, tableOfScope_eq_ok.mpr ⟨?_, fun e he => ?_, rfl⟩, ?_⟩
    · rw [NameTable.keys_append, List.nodup_append] at hwritten
      exact keys_ownNames (r.scope 0) ▸ hwritten.1
    · obtain ⟨table, htable, -⟩ := hbelow e he
      exact ⟨table, htable⟩
    · rw [NameTable.putAll_of_nodup hwritten]
      exact hperm

/-- **A table has the keys of the visible fields**, each once, and nothing but visible fields. -/
theorem LayoutResult.keys_nameTable {table : NameTable} (h : r.nameTable = .ok table) :
    (keys table).Nodup ∧ (∀ k, k ∈ keys table ↔ k ∈ keys (r.visible 0)) ∧
      ∀ x ∈ table, x ∈ r.visible 0 := by
  induction r using LayoutResult.scope_induction generalizing table with
  | step r ih =>
    obtain ⟨hnames, hbelow, rfl⟩ := tableOfScope_eq_ok.mp h
    have hdotted : ∀ e ∈ r.scope 0, (∀ k, k ∈ keys e.dottedBelow ↔ k ∈ keys e.visibleInside) ∧
        ∀ x ∈ e.dottedBelow, x ∈ e.visibleInside := by
      intro e he
      have hinner : ∀ n, e.entry.layout = some n → ∃ table, n.nameTable = .ok table ∧
          (∀ k, k ∈ keys table ↔ k ∈ keys (n.visible 0)) ∧ ∀ x ∈ table, x ∈ n.visible 0 := by
        intro n hn
        obtain ⟨table, htable⟩ := (exists_below_iff he).mp (hbelow e he) n hn
        exact ⟨table, htable, (ih e he n hn htable).2⟩
      obtain ⟨table, htable, hkeys, hmem⟩ := exists_tableBelow
        (Q := fun table fields => (∀ k, k ∈ keys table ↔ k ∈ keys fields) ∧ ∀ x ∈ table, x ∈ fields)
        ⟨fun _ => Iff.rfl, fun _ hx => hx⟩ hinner
      rw [← r.below_of_mem_scope 0 e he] at htable
      rw [ScopeEntry.dottedBelow_eq htable]
      refine ⟨fun k => ?_, fun x hx => ?_⟩
      · rw [ScopeEntry.visibleInside, keys_map_dotted, keys_map_dotted, List.mem_map, List.mem_map]
        exact exists_congr fun k' => and_congr_left fun _ => hkeys k'
      · obtain ⟨y, hy, rfl⟩ := List.mem_map.mp hx
        exact List.mem_map_of_mem (hmem y hy)
    have hperm := r.visible_perm
    refine ⟨NameTable.nodup_keys_putAll ?_, fun k => ?_, ?_⟩
    · rwa [keys_ownNames]
    · rw [NameTable.mem_keys_putAll, ← (NameTable.keys_perm hperm).mem_iff, NameTable.keys_append,
        List.mem_append, NameTable.mem_keys_flatMap, NameTable.mem_keys_flatMap]
      exact or_congr_right <| exists_congr fun e => and_congr_right fun he => (hdotted e he).1 k
    · refine NameTable.forall_mem_foldl_put (P := fun x => x ∈ r.visible 0)
        (fun x hx => ?_) fun x hx => ?_
      · exact hperm.subset (List.mem_append_left _ hx)
      · obtain ⟨e, he, hx⟩ := List.mem_flatMap.mp hx
        exact hperm.subset
          (List.mem_append_right _ (List.mem_flatMap.mpr ⟨e, he, (hdotted e he).2 x hx⟩))

end Layouts

/-! ## Names without dots -/

section Plain

variable {base : Int} {r n : LayoutResult} {e : ScopeEntry}

/-- Before the first dot in the key of a field stands the name of its entry in the scope. -/
theorem ScopeEntry.takeWhile_of_mem_keys (hplain : '.' ∉ e.name.toList) {k : String}
    (hk : k ∈ keys e.visible) : k.toList.takeWhile (· != '.') = e.name.toList := by
  have hname : ∀ c ∈ e.name.toList, (c != '.') = true := by
    intro c hc
    rw [bne_iff_ne]
    rintro rfl
    exact hplain hc
  rw [keys_visible, List.mem_cons, List.mem_map] at hk
  rcases hk with rfl | ⟨k', -, rfl⟩
  · rw [← List.append_nil e.name.toList, List.takeWhile_append_of_pos hname, List.takeWhile_nil]
  · rw [String.toList_append, String.toList_append, List.append_assoc,
      List.takeWhile_append_of_pos hname]
    simp

/-- A name is not its own beginning with more behind a dot. -/
theorem ne_dotted (name k : String) : name ≠ name ++ "." ++ k := by
  intro h
  have hlength := congrArg (·.toList.length) h
  simp at hlength

/-- The names that lead to a field inside of an entry have no dots if those in the scope around
have none. -/
theorem LayoutResult.HasPlainNames.inner (h : r.HasPlainNames) (he : e ∈ r.scope 0)
    (hn : e.entry.layout = some n) : n.HasPlainNames := by
  intro x hx part hpart
  have hvisible : dotted e.name e.entry x ∈ r.visible 0 := by
    refine r.visible_perm.subset (List.mem_append_right _ (List.mem_flatMap.mpr ⟨e, he, ?_⟩))
    rw [ScopeEntry.visibleInside, hn]
    exact List.mem_map_of_mem hx
  exact h _ hvisible part (List.mem_append_right _ hpart)

/-- The name of an entry has no dot if the names that lead to visible fields have none. -/
theorem LayoutResult.HasPlainNames.name (h : r.HasPlainNames) (he : e ∈ r.scope 0) :
    '.' ∉ e.name.toList := by
  obtain ⟨ms, m, hleads, -, hname⟩ := (r.isGenuine_scope 0 e he).leads
  have hvisible : (e.name, e.entry) ∈ r.visible 0 := by
    refine r.visible_perm.subset (List.mem_append_left _ ?_)
    exact List.mem_map_of_mem he
  refine h _ hvisible (some e.name) ?_
  rw [hleads.path, ← hname]
  simp

/-- **Where no name has a dot, a table that is built loses no field**: the keys of the visible
fields are distinct. -/
theorem LayoutResult.nodup_keys_visible (hplain : r.HasPlainNames)
    (h : ∃ table, r.nameTable = .ok table) : (keys (r.visible 0)).Nodup := by
  induction r using LayoutResult.scope_induction with
  | step r ih =>
    obtain ⟨table, htable⟩ := h
    obtain ⟨hnames, hbelow, -⟩ := tableOfScope_eq_ok.mp htable
    rw [keys_visible, List.nodup_flatMap]
    constructor
    · -- Within one entry: its own name is not dotted, and the rest stands behind the same name.
      intro e he
      rw [ScopeEntry.keys_visible, List.nodup_cons]
      constructor
      · intro hmem
        obtain ⟨k, -, hk⟩ := List.mem_map.mp hmem
        exact ne_dotted e.name k hk.symm
      · refine List.Nodup.map (fun a b hab => (String.append_right_inj _).mp hab) ?_
        cases hn : e.entry.layout with
        | none => exact List.nodup_nil
        | some n => exact ih e he n hn (hplain.inner he hn) ((exists_below_iff he).mp (hbelow e he) n hn)
    · -- Between two entries: the names differ, and they stand before the first dot.
      refine (List.pairwise_map.mp hnames).imp_of_mem fun {e e'} he he' hne => ?_
      rintro k hk hk'
      refine hne (String.toList_injective ?_)
      rw [← ScopeEntry.takeWhile_of_mem_keys (hplain.name he) hk,
        ScopeEntry.takeWhile_of_mem_keys (hplain.name he') hk']

end Plain

/-! ## What the table does with the visible fields -/

/-- **What the name table does with the visible fields.**  It fails exactly when a scope that is
part of it repeats a name; the failure tells of a name that comes twice, and two visible fields have
one key then.  A table that is built has each key of a visible field once, with one of the fields of
that key.  Fields with distinct keys all come into the table, and nothing else does.  So a field can
be lost only to the name of another scope that has a dot: if no name has one, two visible fields
with one key make the table fail. -/
theorem LayoutResult.nameTable_visible (r : LayoutResult) :
    ((∃ f, r.nameTable = .error f) ↔ ∃ s, r.Enters s ∧ s.RepeatsName) ∧
    (∀ f, r.nameTable = .error f → ¬ (keys (r.visible 0)).Nodup ∧
      ∃ name first second, f = .layout ⟨.duplicateMember name first second, [name]⟩) ∧
    (∀ table, r.nameTable = .ok table → (keys table).Nodup ∧
      (∀ k, k ∈ keys table ↔ k ∈ keys (r.visible 0)) ∧ ∀ x ∈ table, x ∈ r.visible 0) ∧
    ((keys (r.visible 0)).Nodup → ∃ table, r.nameTable = .ok table ∧ table.Perm (r.visible 0)) ∧
    (r.HasPlainNames → ¬ (keys (r.visible 0)).Nodup → ∃ f, r.nameTable = .error f) := by
  have hfails : (∃ f, r.nameTable = .error f) ↔ ¬ ∃ table, r.nameTable = .ok table := by
    cases r.nameTable with
    | error f => simp
    | ok table => simp
  refine ⟨?_, fun f hf => ⟨fun hkeys => ?_, nameTable_eq_error hf⟩, fun _ => keys_nameTable,
    nameTable_perm_visible, fun hplain hkeys => ?_⟩
  · rw [hfails, nameTable_eq_ok_iff]
    simp
  · obtain ⟨table, htable, -⟩ := nameTable_perm_visible hkeys
    rw [htable] at hf
    cases hf
  · rw [hfails]
    intro htable
    exact hkeys (nodup_keys_visible hplain htable)

/-- A reading with two unnamed parts, both of which have a code. -/
def reading : Aggregate where
  kind := .struct
  members :=
    [⟨.aggregate Engine.header, some "head", .none⟩,
     ⟨.aggregate
        { kind := .struct
          members := [⟨.primitive ⟨"int", some (.int 4), none⟩, some "code", .none⟩]
          name := none
          pack := none
          attributes := .none
          origin := .written ["reading", "1"] }, none, .none⟩,
     ⟨.aggregate
        { kind := .union
          members :=
            [⟨.primitive ⟨"char", some (.int 1), none⟩, some "unit", .none⟩,
             ⟨.primitive ⟨"char", some (.int 1), none⟩, some "code", .none⟩]
          name := none
          pack := none
          attributes := .none
          origin := .written ["reading", "2"] }, none, .none⟩]
  name := some "reading"
  pack := none
  attributes := .none
  origin := .written ["reading"]

/-- The two codes of a reading have one key and no name in it has a dot, so its table fails.  In an
event the keys are distinct, and all six fields come into the table. -/
theorem LayoutResult.nameTable_visible_reading :
    (∃ r f, layoutOf .lp64 (.aggregate reading) = .ok r ∧ r.nameTable = .error f) ∧
    ∃ r table, layoutOf .lp64 (.aggregate event) = .ok r ∧ r.nameTable = .ok table ∧
      table.Perm (r.visible 0) ∧ (r.visible 0).length = 6 := by
  constructor
  · have hfields : (layoutOf .lp64 (.aggregate reading)).toOption.map (fun r =>
        (decide r.HasPlainNames, decide (keys (r.visible 0)).Nodup)) = some (true, false) := by
      decide +kernel
    obtain ⟨r, hr, hfields⟩ := Option.map_eq_some_iff.mp hfields
    obtain ⟨hplain, hkeys⟩ := Prod.mk.inj hfields
    obtain ⟨-, -, -, -, hfails⟩ := nameTable_visible r
    obtain ⟨f, hf⟩ := hfails (of_decide_eq_true hplain) (of_decide_eq_false hkeys)
    exact ⟨r, f, Except.toOption_eq_some.mp hr, hf⟩
  · have hfields : (layoutOf .lp64 (.aggregate event)).toOption.map (fun r =>
        (decide (keys (r.visible 0)).Nodup, (r.visible 0).length)) = some (true, 6) := by
      decide +kernel
    obtain ⟨r, hr, hfields⟩ := Option.map_eq_some_iff.mp hfields
    obtain ⟨hkeys, hlength⟩ := Prod.mk.inj hfields
    obtain ⟨-, -, -, hbuilt, -⟩ := nameTable_visible r
    obtain ⟨table, htable, hperm⟩ := hbuilt (of_decide_eq_true hkeys)
    exact ⟨r, table, Except.toOption_eq_some.mp hr, htable, hperm, hlength⟩

/-- The types of a clock.  An alarm has a time, and a number of its own whose name is spelled like
the key of a field of the time. -/
def clock : Json.Fields :=
  [("time", .object
      [("kind", .text "struct"),
       ("members", .array
         [.object [("name", .text "hour"), ("type", .text "int")],
          .object [("name", .text "minute"), ("type", .text "int")]])]),
   ("alarm", .object
      [("kind", .text "struct"),
       ("members", .array
         [.object [("name", .text "at"), ("type", .text "time")],
          .object [("name", .text "at.minute"), ("type", .text "int")]])])]

/-- The times of a clock. -/
def clockTime : Aggregate where
  kind := .struct
  members :=
    [⟨.primitive ⟨"int", none, none⟩, some "hour", .none⟩,
     ⟨.primitive ⟨"int", none, none⟩, some "minute", .none⟩]
  name := some "time"
  pack := none
  attributes := .none
  origin := .written ["types", "time"]

/-- The alarms of a clock. -/
def alarm : Aggregate where
  kind := .struct
  members :=
    [⟨.aggregate clockTime, some "at", .none⟩,
     ⟨.primitive ⟨"int", none, none⟩, some "at.minute", .none⟩]
  name := some "alarm"
  pack := none
  attributes := .none
  origin := .written ["types", "alarm"]

/-- A clock as a document. -/
def clockDocument : Document where
  types := [("time", .aggregate clockTime), ("alarm", .aggregate alarm)]
  profile := none
  source := "clock.json"

theorem Document.ofJson_clock :
    Document.ofJson "clock.json" (.object [("types", .object clock)]) = .ok clockDocument := by
  cbv

/-- **An alarm loses a field without an error**: its own minute and that of its time have one key,
and yet the table is built, with one of the two. -/
theorem LayoutResult.nameTable_alarm :
    ∃ d node r table, Document.ofJson "clock.json" (.object [("types", .object clock)]) = .ok d ∧
      d.get "alarm" = .ok node ∧ ((Engine.layout .lp64 node).run (Engine.make [] none)).1 = .ok r ∧
      ¬ (keys (r.visible 0)).Nodup ∧ (r.visible 0).length = 4 ∧
      r.nameTable = .ok table ∧ table.length = 3 := by
  have hfields : ((Engine.layout .lp64 (.aggregate alarm)).run (Engine.make [] none)).1.toOption.map
      (fun r => (decide (keys (r.visible 0)).Nodup, (r.visible 0).length,
        r.nameTable.toOption.map List.length)) = some (false, 4, some 3) := by
    decide +kernel
  obtain ⟨r, hr, hfields⟩ := Option.map_eq_some_iff.mp hfields
  obtain ⟨hkeys, hfields⟩ := Prod.mk.inj hfields
  obtain ⟨hlength, hfields⟩ := Prod.mk.inj hfields
  obtain ⟨table, htable, hwritten⟩ := Option.map_eq_some_iff.mp hfields
  exact ⟨clockDocument, .aggregate alarm, r, table, Document.ofJson_clock, rfl,
    Except.toOption_eq_some.mp hr, of_decide_eq_false hkeys, hlength,
    Except.toOption_eq_some.mp htable, hwritten⟩

end RecordLayout
