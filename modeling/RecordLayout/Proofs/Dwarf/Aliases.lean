import Mathlib.Data.List.Perm.Subperm
import RecordLayout.Dwarf.Builder

/-!
# Entries behind names

Two ways lead from an entry to the one that says what its type is.  An aggregate is stood for by the
best entry of its name and tag, which stands for itself.  A typedef or a qualifier stands for the
entry that it refers to; such a chain either ends within as many steps as there are entries or runs
in a circle, so the number of steps that are tried does not matter.

## Main definitions

* `Info.Behind` relates an entry to the one behind a given number of aliases;
* `Info.aggregateBehind?` is the aggregate behind aliases.

## Main results

* `Info.canonical_canonical`: the entry that stands for an aggregate stands for itself;
* `Info.Behind.length_le`: a chain that ends is no longer than the list of entries;
* `Info.behindAliases_alias`: an alias has the same entry behind it as what it refers to;
* `Info.aggregate_of_findRoot`: what is found under a name is an aggregate.
-/

namespace RecordLayout.Dwarf.Info

variable {info : Info} {d e : Die} {od : Option Die}

/-! ## Entries that stand for others -/

theorem mem_of_dieAt? {offset : Nat} (h : info.dieAt? offset = some d) : d ∈ info.dies :=
  List.mem_of_find?_eq_some h

theorem mem_of_typeOf? (h : info.typeOf? d = some e) : e ∈ info.dies := by
  obtain ⟨offset, -, hoffset⟩ := Option.bind_eq_some_iff.mp h
  exact mem_of_dieAt? hoffset

theorem forall_mem_some (h : d ∈ info.dies) : ∀ e ∈ some d, e ∈ info.dies := by
  rintro _ ⟨⟩
  exact h

/-- The best of some entries is one of them. -/
theorem mem_of_foldl_better {dies : List Die} {best : Option Die}
    (h : dies.foldl better best = some d) : best = some d ∨ d ∈ dies := by
  induction dies generalizing best with
  | nil => exact .inl h
  | cons e dies ih =>
    rcases ih h with hbest | hmem
    · unfold better at hbest
      split at hbest
      · exact .inr (Option.some.inj hbest ▸ List.mem_cons_self)
      · split at hbest
        · exact .inr (Option.some.inj hbest ▸ List.mem_cons_self)
        · exact .inl hbest
    · exact .inr (List.mem_cons_of_mem e hmem)

/-- The best entry of a name and a tag has that name and that tag. -/
theorem best?_eq_some {name : String} {tag : Label} (h : info.best? name tag = some d) :
    d ∈ info.dies ∧ d.tag = tag ∧ d.name? = some name := by
  obtain ⟨hmem, hnamed⟩ := List.mem_filter.mp ((mem_of_foldl_better h).resolve_left nofun)
  simp only [isNamed, Bool.and_eq_true, beq_iff_eq] at hnamed
  exact ⟨hmem, hnamed.1.2, hnamed.2⟩

/-- What stands for an entry: itself, or the best entry of its name and tag. -/
theorem canonical_cases (info : Info) (d : Die) :
    info.canonical d = d ∨ d.isAggregate = true ∧ ∃ name, d.name? = some name ∧
      info.best? name d.tag = some (info.canonical d) := by
  unfold canonical
  split
  · exact .inl rfl
  · rename_i name hname
    split
    · rename_i haggregate
      cases hbest : info.best? name d.tag with
      | none => exact .inl rfl
      | some b => exact .inr ⟨haggregate, name, hname, hbest⟩
    · exact .inl rfl

@[simp] theorem tag_canonical (info : Info) (d : Die) : (info.canonical d).tag = d.tag := by
  rcases info.canonical_cases d with h | ⟨-, name, -, hbest⟩
  · rw [h]
  · exact (best?_eq_some hbest).2.1

@[simp] theorem isAggregate_canonical (info : Info) (d : Die) :
    (info.canonical d).isAggregate = d.isAggregate := by
  simp only [Die.isAggregate, tag_canonical]

theorem canonical_mem (h : d ∈ info.dies) : info.canonical d ∈ info.dies := by
  rcases info.canonical_cases d with hd | ⟨-, name, -, hbest⟩
  · rwa [hd]
  · exact (best?_eq_some hbest).1

/-- **The entry that stands for an aggregate stands for itself.** -/
theorem canonical_canonical (info : Info) (d : Die) :
    info.canonical (info.canonical d) = info.canonical d := by
  rcases info.canonical_cases d with h | ⟨haggregate, name, -, hbest⟩
  · rw [h, h]
  · obtain ⟨-, htag, hname⟩ := best?_eq_some hbest
    rw [← isAggregate_canonical info] at haggregate
    generalize info.canonical d = c at *
    simp [canonical, hname, haggregate, htag, hbest]

/-- Entries that are no aggregates stand for themselves. -/
theorem canonical_of_isAggregate_eq_false (h : d.isAggregate = false) : info.canonical d = d := by
  rcases info.canonical_cases d with hd | ⟨haggregate, -⟩
  · exact hd
  · rw [h] at haggregate
    cases haggregate

/-! ## Aliases -/

/-- An alias is no aggregate. -/
theorem isAggregate_of_isAliasTag (h : isAliasTag d.tag = true) : d.isAggregate = false := by
  have hall : ∀ tag ∈ typedefTag :: qualifierTags, isAggregateTag tag = false := by decide
  apply hall
  simpa [isAliasTag, isQualifierTag, List.contains_iff_mem] using h

theorem isAliasTag_of_isAggregate (h : d.isAggregate = true) : isAliasTag d.tag = false := by
  cases htag : isAliasTag d.tag with
  | false => rfl
  | true => exact absurd (h.symm.trans (isAggregate_of_isAliasTag htag)) nofun

/-- The entry behind a number of aliases. -/
inductive Behind (info : Info) (e : Die) : Nat → Option Die → Prop
  | here (tag : isAliasTag e.tag = false) : Behind info e 0 (some e)
  | through {d : Die} {steps : Nat} (tag : isAliasTag d.tag = true)
      (rest : Behind info e steps (info.typeOf? d)) : Behind info e (steps + 1) (some d)

theorem behind_of_stripAliases {steps : Nat} (h : info.stripAliases steps od = some e) :
    ∃ n ≤ steps, Behind info e n od := by
  induction steps generalizing od with
  | zero =>
    cases od with
    | none => cases h
    | some d =>
      unfold stripAliases at h
      split at h
      · cases h
      · obtain rfl := Option.some.inj h
        exact ⟨0, Nat.le_refl 0, .here (Bool.eq_false_iff.mpr ‹_›)⟩
  | succ steps ih =>
    cases od with
    | none => cases h
    | some d =>
      unfold stripAliases at h
      split at h
      · obtain ⟨n, hn, hbehind⟩ := ih h
        exact ⟨n + 1, Nat.succ_le_succ hn, .through ‹_› hbehind⟩
      · obtain rfl := Option.some.inj h
        exact ⟨0, Nat.zero_le _, .here (Bool.eq_false_iff.mpr ‹_›)⟩

namespace Behind

theorem stripAliases {n steps : Nat} (h : Behind info e n od) (hn : n ≤ steps) :
    info.stripAliases steps od = some e := by
  induction h generalizing steps with
  | here tag => cases steps <;> simp [Info.stripAliases, tag]
  | through tag rest ih =>
    obtain ⟨k, rfl⟩ := Nat.exists_eq_add_of_le' hn
    rw [Nat.add_succ, Info.stripAliases, if_pos tag]
    exact ih (Nat.le_add_left _ _)

/-- The number of aliases is determined. -/
theorem steps_unique {m n : Nat} (hm : Behind info e m od) (hn : Behind info e n od) : m = n := by
  induction hm generalizing n with
  | here tag =>
    cases hn with
    | here tag' => rfl
    | through tag' rest => exact absurd (tag.symm.trans tag') nofun
  | through tag rest ih =>
    cases hn with
    | here tag' => exact absurd (tag.symm.trans tag') nofun
    | through tag' rest' => rw [ih rest']

/-- The aliases of a chain, which are different entries as each is a different number of steps away
from the end. -/
theorem exists_aliases {n : Nat} (h : Behind info e n od) (hod : ∀ d ∈ od, d ∈ info.dies) :
    ∃ ds : List Die, ds.length = n ∧ ds.Nodup ∧ ds ⊆ info.dies ∧
      ∀ d ∈ ds, ∃ k ≤ n, Behind info e k (some d) := by
  induction h with
  | here tag => exact ⟨[], rfl, .nil, by simp, by simp⟩
  | @through d n tag rest ih =>
    obtain ⟨ds, hlength, hnodup, hsub, hds⟩ := ih fun d' hd' => mem_of_typeOf? hd'
    have hself : Behind info e (n + 1) (some d) := .through tag rest
    refine ⟨d :: ds, by simp [hlength], List.nodup_cons.mpr ⟨fun hd => ?_, hnodup⟩, ?_, ?_⟩
    · obtain ⟨k, hk, hbehind⟩ := hds d hd
      have hsame := hbehind.steps_unique hself
      omega
    · exact List.cons_subset.mpr ⟨hod d rfl, hsub⟩
    · rw [List.forall_mem_cons]
      refine ⟨⟨n + 1, Nat.le_refl _, hself⟩, fun d' hd' => ?_⟩
      obtain ⟨k, hk, hbehind⟩ := hds d' hd'
      exact ⟨k, Nat.le_succ_of_le hk, hbehind⟩

/-- **A chain of aliases that ends is no longer than the list of entries.** -/
theorem length_le {n : Nat} (h : Behind info e n od) (hod : ∀ d ∈ od, d ∈ info.dies) :
    n ≤ info.dies.length := by
  obtain ⟨ds, rfl, hnodup, hsub, -⟩ := h.exists_aliases hod
  exact (hnodup.subperm hsub).length_le

end Behind

/-- **An alias has the same entry behind it** as what it refers to. -/
theorem behindAliases_alias (hd : d ∈ info.dies) (tag : isAliasTag d.tag = true)
    (h : info.behindAliases (info.typeOf? d) = some e) :
    info.behindAliases (some d) = some e := by
  obtain ⟨n, -, hbehind⟩ := behind_of_stripAliases h
  have hself : Behind info e (n + 1) (some d) := .through tag hbehind
  refine hself.stripAliases (hself.length_le ?_)
  rintro _ ⟨⟩
  exact hd

theorem behindAliases_of_isAliasTag_eq_false (tag : isAliasTag d.tag = false) :
    info.behindAliases (some d) = some d :=
  (Behind.here tag).stripAliases (Nat.zero_le _)

/-- The aggregate behind aliases, if there is one. -/
def aggregateBehind? (info : Info) (od : Option Die) : Option Die :=
  ((info.behindAliases od).filter Die.isAggregate).map info.canonical

theorem mem_of_behindAliases (hod : ∀ d ∈ od, d ∈ info.dies)
    (h : info.behindAliases od = some e) : e ∈ info.dies := by
  obtain ⟨n, -, hbehind⟩ := behind_of_stripAliases h
  clear h
  induction hbehind with
  | here tag => exact hod _ rfl
  | through tag rest ih => exact ih fun d' hd' => mem_of_typeOf? hd'

/-! ## Entries by name -/

/-- The tags that may answer for a name are those of aggregates and of other names for them. -/
theorem isAggregateTag_of_mem_wantedTags {typeName : String} {tag : Label}
    (h : tag ∈ (wantedTags typeName).2) :
    tag = typedefTag ∨ isAggregateTag tag = true := by
  have hkeywords : ∀ k ∈ tagKeywords, isAggregateTag k.2 = true := by decide
  unfold wantedTags at h
  dsimp only at h
  split at h
  · rename_i rest found hfound
    obtain ⟨k, hk, hrest⟩ := List.exists_of_findSome?_eq_some hfound
    obtain ⟨_, -, hpair⟩ := Option.map_eq_some_iff.mp hrest
    obtain ⟨-, rfl⟩ := Prod.mk.inj hpair
    obtain rfl := List.mem_singleton.mp h
    exact .inr (hkeywords k hk)
  · have hany : ∀ tag ∈ [structTag, classTag, unionTag, typedefTag],
        tag = typedefTag ∨ isAggregateTag tag = true := by decide
    exact hany tag h

/-- What is found under a name is an aggregate. -/
theorem aggregate_of_findRoot {typeName : String} (h : info.findRoot typeName = .ok d) :
    d ∈ info.dies ∧ d.isAggregate = true := by
  unfold findRoot at h
  dsimp only at h
  split at h
  · cases h
  · split at h
    · rename_i found
      obtain rfl := Except.ok.inj h
      obtain ⟨tag, htag, hnamed⟩ := List.exists_of_findSome?_eq_some found
      unfold aggregateNamed? at hnamed
      split at hnamed
      · cases hnamed
      · rename_i b hbest
        obtain ⟨hmem, hsame, -⟩ := best?_eq_some hbest
        split at hnamed
        · obtain ⟨hbehind, haggregate⟩ := Option.filter_eq_some_iff.mp hnamed
          refine ⟨mem_of_behindAliases ?_ hbehind, haggregate⟩
          rintro _ ⟨⟩
          exact hmem
        · obtain rfl := Option.some.inj hnamed
          refine ⟨hmem, ?_⟩
          rw [Die.isAggregate, hsame]
          exact (isAggregateTag_of_mem_wantedTags htag).resolve_left ‹_›
    · cases h

end RecordLayout.Dwarf.Info
