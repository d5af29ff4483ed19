import Mathlib.Data.List.Sort
import RecordLayout.Profile.Basic

/-!
# Tables with ascending keys

What a key finds after writing is said without regard to the order of the table; the order is what
makes two tables equal that find the same.  Writing all entries of a table into one that knows no
other keys gives that table.

## Main definitions

* `SortedTable.Ascending` says that the keys of a table ascend;
* `SortedTable.Extends` says that a table knows all keys of another.

## Main results

* `SortedTable.get?_put`, `SortedTable.Ascending.put`: one entry written;
* `SortedTable.Ascending.ext`: ascending tables that find the same are equal;
* `SortedTable.Ascending.foldl_put_eq`: a table written over another that knows no other keys.
-/

namespace RecordLayout.SortedTable

variable {α β : Type} [DecidableEq α] {table other : SortedTable α β} {key k : α} {value v : β}

/-- The keys of a table ascend. -/
def Ascending [LT α] (table : SortedTable α β) : Prop := table.Pairwise fun e f => e.1 < f.1

instance [LT α] [DecidableLT α] (table : SortedTable α β) : Decidable table.Ascending :=
  inferInstanceAs (Decidable (table.Pairwise _))

/-- A table knows all keys of another. -/
def Extends (table other : SortedTable α β) : Prop := ∀ e ∈ other, (get? e.1 table).isSome

instance (table other : SortedTable α β) : Decidable (table.Extends other) :=
  inferInstanceAs (Decidable (∀ e ∈ other, _))

/-! ## Keys and entries -/

theorem mem_of_get? (h : get? k table = some v) : (k, v) ∈ table := by
  induction table with
  | nil => cases h
  | cons e table ih =>
    obtain ⟨k', v'⟩ := e
    unfold get? at h
    split at h
    · rename_i hk
      subst hk
      obtain rfl := Option.some.inj h
      exact List.mem_cons_self
    · exact List.mem_cons_of_mem _ (ih h)

theorem isSome_get?_of_mem (h : (k, v) ∈ table) : (get? k table).isSome := by
  induction table with
  | nil => cases h
  | cons e table ih =>
    unfold get?
    split
    · rfl
    · rename_i hk
      rcases List.mem_cons.mp h with rfl | h
      · exact absurd rfl hk
      · exact ih h

/-- A table knows the keys that are found in one that it extends. -/
theorem Extends.isSome_get? (h : Extends table other) (hk : (get? k other).isSome) :
    (get? k table).isSome := by
  obtain ⟨v, hv⟩ := Option.isSome_iff_exists.mp hk
  exact h _ (mem_of_get? hv)

theorem extends_self : Extends table table := fun _ he => isSome_get?_of_mem he

/-! ## One entry written -/

variable [LT α] [DecidableLT α]

theorem get?_put : get? k (put key value table) = if key = k then some value else get? k table := by
  induction table with
  | nil => rfl
  | cons e table ih =>
    obtain ⟨k', v'⟩ := e
    unfold put
    split
    · rfl
    · split
      · rename_i hkey
        subst hkey
        by_cases hk : key = k <;> simp [get?, hk]
      · rename_i hkey
        by_cases hk : k' = k
        · subst hk
          simp [get?, hkey]
        · simp [get?, hk, ih]

theorem mem_put {e : α × β} (h : e ∈ put key value table) : e = (key, value) ∨ e ∈ table := by
  induction table with
  | nil => exact .inl (List.mem_singleton.mp h)
  | cons f table ih =>
    obtain ⟨k', v'⟩ := f
    unfold put at h
    split at h
    · exact List.mem_cons.mp h
    · split at h
      · exact (List.mem_cons.mp h).imp_right (List.mem_cons_of_mem _)
      · rcases List.mem_cons.mp h with rfl | h
        · exact .inr List.mem_cons_self
        · exact (ih h).imp_right (List.mem_cons_of_mem _)

/-- What holds of the entry that is written and of all others holds of the new table. -/
theorem forall_mem_put {P : α × β → Prop} (h : P (key, value)) (hall : ∀ e ∈ table, P e) :
    ∀ e ∈ put key value table, P e := by
  intro e he
  rcases mem_put he with rfl | he
  · exact h
  · exact hall e he

/-- Writing an entry loses no key. -/
theorem Extends.put (h : Extends table other) : Extends (put key value table) other := by
  intro e he
  rw [get?_put]
  split
  · rfl
  · exact h e he

/-- The same key written into both. -/
theorem Extends.put_put (h : Extends table other) :
    Extends (SortedTable.put key value table) (SortedTable.put key v other) := by
  refine forall_mem_put ?_ h.put
  rw [get?_put, if_pos rfl]
  rfl

variable [IsStrictTotalOrder α (· < ·)]

theorem Ascending.put (h : Ascending table) : Ascending (put key value table) := by
  induction table with
  | nil => exact List.pairwise_singleton _ _
  | cons e table ih =>
    obtain ⟨hfirst, hrest⟩ := List.pairwise_cons.mp h
    unfold SortedTable.put
    split
    · rename_i hlt
      refine List.pairwise_cons.mpr ⟨List.forall_mem_cons.mpr ⟨hlt, fun f hf => ?_⟩, h⟩
      exact IsTrans.trans _ _ _ hlt (hfirst f hf)
    · rename_i hlt
      split
      · rename_i heq
        subst heq
        exact List.pairwise_cons.mpr ⟨hfirst, hrest⟩
      · rename_i hne
        have hgt : e.1 < key := ((trichotomous_of (· < ·) key e.1).resolve_left hlt).resolve_left hne
        exact List.pairwise_cons.mpr ⟨forall_mem_put hgt hfirst, ih hrest⟩

/-! ## Tables as what they find -/

omit [DecidableLT α] in
/-- In an ascending table a key finds the entry that has it. -/
theorem Ascending.get?_eq_some_iff (h : Ascending table) : get? k table = some v ↔ (k, v) ∈ table := by
  refine ⟨mem_of_get?, fun hmem => ?_⟩
  induction table with
  | nil => cases hmem
  | cons e table ih =>
    obtain ⟨hfirst, hrest⟩ := List.pairwise_cons.mp h
    unfold get?
    rcases List.mem_cons.mp hmem with rfl | hmem
    · rw [if_pos rfl]
    · have hne : e.1 ≠ k := ne_of_irrefl (hfirst _ hmem)
      rw [if_neg hne]
      exact ih hrest hmem

omit [DecidableLT α] in
/-- **Ascending tables that find the same are equal.** -/
theorem Ascending.ext (h : Ascending table) (ho : Ascending other)
    (heq : ∀ k, get? k table = get? k other) : table = other := by
  have : Std.Irrefl fun e f : α × β => e.1 < f.1 := ⟨fun e => irrefl e.1⟩
  have : Std.Antisymm fun e f : α × β => e.1 < f.1 := ⟨fun e f hef hfe => absurd hfe (asymm hef)⟩
  refine List.Pairwise.eq_of_mem_iff h ho fun e => ?_
  rw [← h.get?_eq_some_iff, ← ho.get?_eq_some_iff, heq]

/-- All entries of a table written over another: the written table is asked first. -/
theorem Ascending.get?_foldl_put (h : Ascending table) :
    get? k (table.foldl (fun t e => SortedTable.put e.1 e.2 t) other)
      = (get? k table).or (get? k other) := by
  induction table generalizing other with
  | nil => rfl
  | cons e table ih =>
    obtain ⟨hfirst, hrest⟩ := List.pairwise_cons.mp h
    rw [List.foldl_cons, ih hrest, get?_put, get?]
    split
    · rename_i hk
      have hnone : get? k table = none := by
        rw [Option.eq_none_iff_forall_ne_some]
        exact fun v hv => ne_of_irrefl (hfirst _ (mem_of_get? hv)) hk
      rw [hnone, Option.none_or, Option.some_or]
    · rfl

/-- The order is kept when several entries are written. -/
theorem Ascending.foldl_put {γ : Type} {key : γ → α} {value : γ → β} {xs : List γ}
    (h : Ascending table) :
    Ascending (xs.foldl (fun t x => SortedTable.put (key x) (value x) t) table) :=
  List.foldlRecOn xs _ h fun _ ht _ _ => ht.put

/-- **A table written over another** that knows no other keys. -/
theorem Ascending.foldl_put_eq (h : Ascending table) (ho : Ascending other)
    (hkeys : Extends table other) :
    table.foldl (fun t e => SortedTable.put e.1 e.2 t) other = table := by
  refine Ascending.ext ho.foldl_put h fun k => ?_
  rw [h.get?_foldl_put]
  cases hk : get? k table with
  | some v => rfl
  | none =>
    rw [Option.none_or, ← Option.not_isSome_iff_eq_none]
    exact fun hother => by simpa [hk] using hkeys.isSome_get? hother

end RecordLayout.SortedTable
