import Mathlib.Data.List.Count
import Mathlib.Logic.Relation
import RecordLayout.Proofs.Dwarf.Aliases

/-!
# How deep references go

A builder follows references only down to a bound on the depth.  Aliases and arrays pass on to the
entry that they refer to, and such a chain may end at an aggregate, whose members begin new chains.
Where no chain runs in a circle the bound is never met: each chain but the last ends at an aggregate
that is not being built yet, so no entry lies on two of them, and the last chain is no longer than
the list of entries.

## Main definitions

* `Info.PassesTo` has the links of a chain, and `Info.ChainsEnd` says that no chain runs in a
  circle;
* `Enough` says that a depth is enough for building an entry.

## Main results

* `Info.reach_lt_of_passesTo`: a chain gets shorter with each link;
* `Info.reach_add_pending_le`: a chain and the chains behind the aggregate at its end share no entry;
* `enough_depthBound`: the bound is enough.
-/

namespace RecordLayout.Dwarf

variable {info : Info} {building : List Nat} {d e a b : Die}

/-! ## Chains -/

/-- An alias or an array passes on to the entry that it refers to. -/
def Info.PassesTo (info : Info) (d e : Die) : Prop :=
  (isAliasTag d.tag = true ∨ d.tag = arrayTag) ∧ info.typeOf? d = some e

/-- No chain of aliases and arrays runs in a circle. -/
def Info.ChainsEnd (info : Info) : Prop :=
  ∀ d ∈ info.dies, ¬ Relation.TransGen info.PassesTo d d

namespace Info

/-- A chain leads from an entry to another one. -/
abbrev Leads (info : Info) : Die → Die → Prop := Relation.ReflTransGen info.PassesTo

/-- What passes on is no aggregate. -/
theorem PassesTo.isAggregate_eq_false (h : info.PassesTo d e) : d.isAggregate = false := by
  obtain ⟨halias | harray, -⟩ := h
  · exact isAggregate_of_isAliasTag halias
  · have hnone : isAggregateTag arrayTag = false := by decide
    rwa [Die.isAggregate, harray]

theorem passesTo_rightUnique (info : Info) : Relator.RightUnique info.PassesTo :=
  fun _ _ _ h h' => Option.some.inj (h.2.symm.trans h'.2)

/-- A chain ends at an aggregate. -/
theorem eq_of_leads (h : info.Leads a e) (ha : a.isAggregate = true) : e = a := by
  rcases h.cases_head with heq | ⟨f, hpass, -⟩
  · exact heq.symm
  · exact absurd (ha.symm.trans hpass.isAggregate_eq_false) nofun

/-- What lies on a chain to an aggregate leads to that aggregate. -/
theorem leads_of_leads (he : info.Leads d e) (ha : info.Leads d a) (hagg : a.isAggregate = true) :
    info.Leads e a := by
  rcases he.total_of_right_unique info.passesTo_rightUnique ha with h | h
  · exact h
  · rw [eq_of_leads h hagg]

/-- A chain leads to one aggregate only. -/
theorem leads_unique (ha : info.Leads d a) (hb : info.Leads d b) (hagg : a.isAggregate = true)
    (hbgg : b.isAggregate = true) : a = b :=
  eq_of_leads (leads_of_leads ha hb hbgg) hagg |>.symm

/-- No chain runs in a circle where aliases and arrays refer back only. -/
theorem chainsEnd_of_lt (h : ∀ d ∈ info.dies, isAliasTag d.tag = true ∨ d.tag = arrayTag →
    ∀ e ∈ info.typeOf? d, e.offset < d.offset) : info.ChainsEnd := by
  intro d hd hcircle
  have hlt : ∀ e, Relation.TransGen info.PassesTo d e → e ∈ info.dies ∧ e.offset < d.offset := by
    intro e he
    induction he with
    | single hpass => exact ⟨mem_of_typeOf? hpass.2, h _ hd hpass.1 _ hpass.2⟩
    | tail _ hpass ih =>
      exact ⟨mem_of_typeOf? hpass.2, Nat.lt_trans (h _ ih.1 hpass.1 _ hpass.2) ih.2⟩
  exact Nat.lt_irrefl _ (hlt d hcircle).2

/-! ## Counting entries -/

open Classical in
/-- The number of entries with a property. -/
noncomputable def count (info : Info) (P : Die → Prop) : Nat :=
  info.dies.countP fun d => decide (P d)

theorem count_le_length (P : Die → Prop) : info.count P ≤ info.dies.length := List.countP_le_length

theorem count_pos {P : Die → Prop} (hd : d ∈ info.dies) (h : P d) : 0 < info.count P :=
  List.countP_pos_iff.mpr ⟨d, hd, by simpa using h⟩

/-- Entries of two kinds are counted together when no entry is of both kinds. -/
theorem count_add_count_le {P Q R : Die → Prop} (hPQ : ∀ d, P d → ¬ Q d) (hPR : ∀ d, P d → R d)
    (hQR : ∀ d, Q d → R d) : info.count P + info.count Q ≤ info.count R := by
  unfold count
  induction info.dies with
  | nil => exact Nat.le_refl 0
  | cons d dies ih =>
    simp only [List.countP_cons, decide_eq_true_eq]
    have hd := And.intro (hPQ d) (And.intro (hPR d) (hQR d))
    split_ifs <;> grind

/-- How many entries lie on the chain of an entry. -/
noncomputable def reach (info : Info) (d : Die) : Nat := info.count (info.Leads d)

/-- The chain of an entry ends at an aggregate that is being built. -/
def LeadsInto (info : Info) (building : List Nat) (d : Die) : Prop :=
  ∃ a, info.Leads d a ∧ a.isAggregate = true ∧ (info.canonical a).offset ∈ building

/-- How many entries have chains that do not end at an aggregate that is being built. -/
noncomputable def pending (info : Info) (building : List Nat) : Nat :=
  info.count fun d => ¬ info.LeadsInto building d

theorem reach_pos (hd : d ∈ info.dies) : 0 < info.reach d := count_pos hd .refl

/-- **A chain gets shorter with each link.** -/
theorem reach_lt_of_passesTo (hends : info.ChainsEnd) (hd : d ∈ info.dies)
    (h : info.PassesTo d e) : info.reach e < info.reach d := by
  have hself : 0 < info.count (· = d) := count_pos hd rfl
  have hcount : info.reach e + info.count (· = d) ≤ info.reach d :=
    count_add_count_le (fun x hx heq => hends d hd (.head' h (heq ▸ hx)))
      (fun x hx => .head h hx) fun x heq => heq ▸ .refl
  omega

/-- **A chain that ends at an aggregate**, and those that are pending while that aggregate is being
built, share no entry. -/
theorem reach_add_pending_le (ha : info.Leads d a) (hagg : a.isAggregate = true)
    (hnew : (info.canonical a).offset ∉ building) :
    info.reach d + info.pending ((info.canonical a).offset :: building) ≤ info.pending building := by
  refine count_add_count_le (fun x hx => ?_) (fun x hx => ?_) fun x hx => ?_
  · exact not_not.mpr ⟨a, leads_of_leads hx ha hagg, hagg, List.mem_cons_self⟩
  · rintro ⟨b, hb, hbgg, hbuilding⟩
    rw [leads_unique (hx.trans hb) ha hbgg hagg] at hbuilding
    exact hnew hbuilding
  · rintro ⟨b, hb, hbgg, hbuilding⟩
    exact hx ⟨b, hb, hbgg, List.mem_cons_of_mem _ hbuilding⟩

end Info

/-! ## Depths that are enough -/

/-- A depth is enough for building the type of an entry, while certain aggregates are being
built. -/
def Enough (info : Info) : Nat → List Nat → Option Die → Prop
  | _, _, none => True
  | 0, _, some _ => False
  | depth + 1, building, some d =>
    let d := info.canonical d
    (∀ e, info.PassesTo d e → Enough info depth building (some e)) ∧
      (d.isAggregate = true → d.offset ∉ building → ∀ c ∈ d.children, c.isMember = true →
        Enough info depth (d.offset :: building) (info.typeOf? c))

/-- A chain takes as many steps as there are entries on it; then come the members of the aggregate at
its end. -/
theorem enough_of_reach (hends : info.ChainsEnd) (rest : Nat) (hd : d ∈ info.dies)
    (h : ∀ a, info.Leads d a → a.isAggregate = true → (info.canonical a).offset ∉ building →
      ∀ c, ∀ depth ≥ rest, Enough info depth ((info.canonical a).offset :: building) (info.typeOf? c))
    {depth : Nat} (hdepth : info.reach d + rest ≤ depth) : Enough info depth building (some d) := by
  induction depth generalizing d with
  | zero =>
    have hpos := Info.reach_pos hd
    omega
  | succ depth ih =>
    refine ⟨fun e he => ?_, fun hagg hnew c _ _ => ?_⟩
    · have hself : info.canonical d = d := by
        refine Info.canonical_of_isAggregate_eq_false ?_
        rw [← Info.isAggregate_canonical info]
        exact he.isAggregate_eq_false
      rw [hself] at he
      have hlt := Info.reach_lt_of_passesTo hends hd he
      refine ih (Info.mem_of_typeOf? he.2) (fun a ha => h a (.head he ha)) (by omega)
    · rw [Info.isAggregate_canonical] at hagg
      have hpos := Info.reach_pos hd
      exact h d .refl hagg hnew c depth (by omega)

/-- While fewer and fewer entries are pending, one more chain is all that is needed. -/
theorem enough_of_pending (hends : info.ChainsEnd) (hd : d ∈ info.dies) {depth : Nat}
    (hdepth : info.pending building + info.dies.length ≤ depth) :
    Enough info depth building (some d) := by
  induction hk : info.pending building using Nat.strongRecOn generalizing building d depth with
  | ind k ih =>
    subst hk
    by_cases hend : ∃ a, info.Leads d a ∧ a.isAggregate = true ∧
        (info.canonical a).offset ∉ building
    · obtain ⟨a, ha, hagg, hnew⟩ := hend
      have hpos := Info.reach_pos hd
      have hle := Info.reach_add_pending_le ha hagg hnew
      refine enough_of_reach hends
        (info.pending ((info.canonical a).offset :: building) + info.dies.length) hd ?_ (by omega)
      intro b hb hbgg _ c depth' hdepth'
      obtain rfl := Info.leads_unique ha hb hagg hbgg
      cases htype : info.typeOf? c with
      | none => cases depth' <;> trivial
      | some e => exact ih _ (by omega) (Info.mem_of_typeOf? htype) hdepth' rfl
    · refine enough_of_reach hends 0 hd
        (fun a ha hagg hnew => absurd ⟨a, ha, hagg, hnew⟩ hend) ?_
      have hle : info.reach d ≤ info.dies.length := Info.count_le_length _
      omega

/-- **The bound is enough.** -/
theorem enough_depthBound (hends : info.ChainsEnd) {od : Option Die}
    (hod : ∀ d ∈ od, d ∈ info.dies) : Enough info (depthBound info) [] od := by
  cases od with
  | none => trivial
  | some d =>
    refine enough_of_pending hends (hod d rfl) ?_
    have hle : info.pending [] ≤ info.dies.length := Info.count_le_length _
    unfold depthBound
    omega

end RecordLayout.Dwarf
