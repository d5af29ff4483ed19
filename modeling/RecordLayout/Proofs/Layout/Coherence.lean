import RecordLayout.Profile.BuiltIn
import RecordLayout.Proofs.Layout.Bare
import RecordLayout.Proofs.Layout.EngineRun

/-!
# Coherence of the caching engine

An engine answers every call as a fresh one does, whatever was asked of it before, as long as the
constants in the types are whole numbers: a layout that is found was computed for a type that is
equal up to origins, and a failure leaves only such layouts behind.

Without that restriction a look-up can find the layout of a type whose constants are equal as keys
but not acceptable to a layout.  An engine that keeps nothing never does, so its answers do not
depend on its history for any type that is a key (`Engine.Lookup`).

What makes an engine answer as the plain layout does is the same in all cases: what is found for a
type is the layout of that type (`Engine.Trusted`).  The argument is therefore made once, for any
class of types of which that is true.

## Main definitions

* `Engine.Trusted` says that what is found for the types of a class is their own layout;
* `Engine.Answers` relates the outcome of an engine to that of a plain computation, unless it gave up
  because its limit is negative;
* `Engine.Trusted.coupling` shows that an engine then goes beside the plain walk;
* `Engine.Coherent` says of a kept layout that it is that of its type;
* `Engine.HasIntegralHistory` says of an engine that it was asked about integral types only.

## Main results

* `Engine.Trusted.layout`: the outcome of a layout is that of the plain one;
* `Engine.HasIntegralHistory.layout_eq`: so it is for integral types;
* `Engine.layout_eq_fresh`: the history of an engine does not show in its answers.
-/

namespace RecordLayout.Engine

/-! ## Trust -/

/-- What an engine keeps, all of which satisfies `P`, can be trusted for the types in `D`: they are
keys, what is found for one of them is its own layout up to origins, and that may be kept. -/
structure Trusted (limit : Option Int) (P : TypeNode → Profile → LayoutResult → Prop)
    (D : TypeNode → Prop) : Prop where
  isKey : ∀ {node}, D node → node.isKey = true
  found : ∀ {e : Engine} {node p x}, e.Invariant limit P → D node → x ∈ e.entries →
    x.holds node p = true →
    (node.bare.measure Setting.pure p).compute = .ok x.stored.result.bare
  kept : ∀ {node p r}, D node → (node.bare.measure Setting.pure p).compute = .ok r.bare →
    P node p r

section

variable {limit : Option Int} {e : Engine} {node : TypeNode} {p : Profile}

/-- The outcome `y` of an engine is related by `R` to that of a plain computation, `x`.  An engine
with a negative limit may give up after any computation, for it can never keep few enough layouts. -/
def Answers (limit : Option Int) {α β : Type} (R : α → β → Prop) (x : Except Failure α)
    (y : Except Failure β) : Prop :=
  x.Rel Eq R y ∨ (∃ n ∈ limit, n < 0) ∧ y = .error .exhaustedStore

section Answers

variable {α β γ δ : Type} {R : α → β → Prop} {Q : α → γ → Prop} {x : Except Failure α}
  {y : Except Failure β}

theorem answers_iff (hlimit : ∀ n ∈ limit, 0 ≤ n) : Answers limit R x y ↔ x.Rel Eq R y := by
  refine or_iff_left ?_
  rintro ⟨⟨n, hn, hneg⟩, -⟩
  exact absurd (hlimit n hn) (Int.not_le.mpr hneg)

/-- Failures look the same through any relation. -/
theorem Answers.error {failure : Failure} (h : Answers limit R x (.error failure)) :
    Answers limit Q x (.error failure) := by
  rcases h with h | ⟨hneg, h⟩
  · cases h with
    | error same => exact .inl (.error same)
  · exact .inr ⟨hneg, congrArg Except.error (Except.error.inj h)⟩

/-- What is returned is never that the engine gives up. -/
theorem Answers.ok {b : β} (h : Answers limit R x (.ok b)) : ∃ a, x = .ok a ∧ R a b := by
  rcases h with h | ⟨-, h⟩
  · cases h with
    | ok related => exact ⟨_, rfl, related⟩
  · cases h

theorem Answers.within (h : Answers limit R x y) (name : String) :
    Answers limit R (Failure.within name x) (Failure.within name y) := by
  rcases h with h | ⟨hneg, rfl⟩
  · exact .inl (Failure.within_rel (E := Eq) (fun _ _ => congrArg (Failure.push name)) h)
  · exact .inr ⟨hneg, rfl⟩

theorem Answers.map {Q : α → γ → Prop} {f : β → γ} (h : Answers limit R x y)
    (hf : ∀ a b, R a b → Q a (f b)) : Answers limit Q x (y.map f) := by
  rcases h with (related | same) | ⟨hneg, rfl⟩
  · exact .inl (.ok (hf _ _ related))
  · exact .inl (.error same)
  · exact .inr ⟨hneg, rfl⟩

end Answers

/-- From engines that keep what satisfies `P`, a computation leaves such an engine and comes to what
a plain computation comes to. -/
def Follows (limit : Option Int) (P : TypeNode → Profile → LayoutResult → Prop) {α β : Type}
    (R : α → β → Prop) (x : Except Failure α) (y : EngineM β) : Prop :=
  ∀ e : Engine, e.Invariant limit P →
    (y.run e).2.Invariant limit P ∧ Answers limit R x (y.run e).1

namespace Trusted

variable {P : TypeNode → Profile → LayoutResult → Prop} {C D : TypeNode → Prop}
  (T : Trusted limit P D)

include T

/-- **A look-up does no more than the computation that it replaces.** -/
theorem serve {compute : EngineM LayoutResult} (hnode : D node)
    (hcompute : Follows limit P (Comparison.bare p).Layouts
      (node.bare.measure Setting.pure p).compute compute) :
    Follows limit P (fun r stored => (Comparison.bare p).Layouts r stored.result)
      (node.bare.measure Setting.pure p).compute (Engine.serve p node compute) := by
  intro e he
  have hserved {x : Entry}
      (h : (node.bare.measure Setting.pure p).compute = .ok x.stored.result.bare) :
      Answers limit (fun r stored => (Comparison.bare p).Layouts r stored.result)
        (node.bare.measure Setting.pure p).compute (.ok x.stored) :=
    .inl (h ▸ .ok (Comparison.layouts_bare.mpr rfl))
  have hkept {r : LayoutResult} (h : Answers limit (Comparison.bare p).Layouts
      (node.bare.measure Setting.pure p).compute (.ok r)) :
      (node.bare.measure Setting.pure p).compute = .ok r.bare := by
    obtain ⟨_, hr, hbare⟩ := h.ok
    rw [hr, Comparison.layouts_bare.mp hbare]
  have hlooks := looks_serve p node compute e
  generalize (Engine.serve p node compute).run e = out at hlooks ⊢
  have hmiss := hcompute _ (he.writeNote "cache" (lookupNote "miss" node p))
  cases hlooks with
  | refused key =>
    rw [T.isKey hnode] at key
    cases key
  | hit found =>
    obtain ⟨hx, hholds⟩ := mem_of_find? found
    exact ⟨(he.touch hx).writeNote _ _, hserved (T.found he hnode hx hholds)⟩
  | failed key missed run =>
    rw [run] at hmiss
    exact ⟨hmiss.1, hmiss.2.error⟩
  | overdrawn key missed run overdrawn =>
    rw [run] at hmiss
    obtain ⟨he', hr⟩ := hmiss
    have hkeep := he'.keep (T.kept hnode (hkept hr))
    rw [isOverdrawn, hkeep.limit, Option.any_eq_true] at overdrawn
    obtain ⟨n, hn, hneg⟩ := overdrawn
    exact ⟨hkeep, .inr ⟨⟨n, hn, of_decide_eq_true hneg⟩, rfl⟩⟩
  | @kept r e' key missed run drawn =>
    rw [run] at hmiss
    obtain ⟨he', hr⟩ := hmiss
    refine ⟨he'.keep (T.kept hnode (hkept hr)), ?_⟩
    -- The computation may have kept the layout of an equal type.
    obtain ⟨init, x, hx, hstored, -⟩ := e'.exists_keep node p r
    rw [hstored]
    refine hserved ?_
    cases hx with
    | found found =>
      obtain ⟨hx, hholds⟩ := mem_of_find? found
      exact T.found he' hnode hx hholds
    | new new => rw [new, hkept hr]

omit T in
/-- **An engine goes beside the plain walk** over types whose aggregates it can be trusted for. -/
def coupling (T : Trusted limit P D) (p : Profile)
    (hCD : ∀ a, C (.aggregate a) → D (.aggregate a)) :
    Coupling Setting.pure (setting p) (.bare p) fun a b => a = b.bare ∧ C (.aggregate b) where
  Relates := Follows limit P
  of_pure h _ he := ⟨he, .inl (.ok h)⟩
  bind {α β γ δ R Q x y h k} hx hk e he := by
    obtain ⟨he', hx⟩ := hx e he
    rw [EngineM.run_bind]
    generalize y.run e = out at he' hx ⊢
    obtain ⟨failure | b, e'⟩ := out
    · refine ⟨he', ?_⟩
      rcases hx with hx | ⟨hneg, hx⟩
      · cases hx with
        | error same => exact .inl (.error same)
      · exact .inr ⟨hneg, congrArg Except.error (Except.error.inj hx)⟩
    · obtain ⟨a, rfl, hab⟩ := hx.ok
      exact hk a b hab e' he'
  fail _ _ he := ⟨he, .inl (.error rfl)⟩
  within name hx e he := by
    rw [run_within]
    exact ⟨(hx e he).1, (hx e he).2.within name⟩
  note _ _ he := ⟨he.writeNotes "bitfields" _, .inl (.ok rfl)⟩
  fetch {a b} same hcompute e he := by
    obtain ⟨rfl, hb⟩ := same
    obtain ⟨he', hserve⟩ := T.serve (hCD b hb) hcompute e he
    rw [run_fetch]
    exact ⟨he', hserve.map fun _ _ h => h⟩

/-- **A look-up of a type** serves its plain layout, up to origins. -/
theorem serve_node (hC : Hereditary C) (hCD : ∀ a, C (.aggregate a) → D (.aggregate a))
    (hwalk : C node) (hnode : D node) :
    Follows limit P (fun r stored => (Comparison.bare p).Layouts r stored.result)
      (node.bare.measure Setting.pure p).compute
      (Engine.serve p node (node.measure (setting p) p).compute) :=
  have hmeasures : (T.coupling p hCD).Measures node.bare node :=
    Coupling.measures_bare hC (fun _ ha => ⟨rfl, ha⟩) node hwalk
  T.serve hnode hmeasures.compute

/-- **The outcome of a layout** by way of an engine is that of the plain layout, up to origins. -/
theorem layout (hC : Hereditary C) (hCD : ∀ a, C (.aggregate a) → D (.aggregate a))
    (hwalk : C node) (hnode : D node) :
    Follows limit P (Comparison.bare p).Layouts (layoutOf p node.bare) (Engine.layout p node) := by
  intro e he
  obtain ⟨he', hserve⟩ := T.serve_node (p := p) hC hCD hwalk hnode e he
  rw [run_layout, layoutOf, TypeNode.rootName_bare]
  exact ⟨he', (hserve.map fun _ _ h => h).within _⟩

end Trusted

/-! ## Integral types -/

/-- What is kept is the layout of its type, up to origins.  Nothing is said when nothing is kept. -/
def Coherent (limit : Option Int) (node : TypeNode) (p : Profile) (r : LayoutResult) : Prop :=
  limit = some 0 ∨
    node.isIntegral = true ∧ (node.bare.measure Setting.pure p).compute = .ok r.bare

/-- The types whose look-ups are sure to find only their own layout. -/
def Lookup (limit : Option Int) (node : TypeNode) : Prop :=
  node.isKey = true ∧ (limit = some 0 ∨ node.isIntegral = true)

theorem hereditary_lookup (limit : Option Int) : Hereditary (Lookup limit) where
  array h := ⟨hereditary_isKey.array h.1, h.2.imp id hereditary_isIntegral.array⟩
  flexibleArray h :=
    ⟨hereditary_isKey.flexibleArray h.1, h.2.imp id hereditary_isIntegral.flexibleArray⟩
  aggregate h x hx :=
    ⟨hereditary_isKey.aggregate h.1 x hx,
      h.2.imp id fun h => hereditary_isIntegral.aggregate h x hx⟩

theorem Lookup.of_isIntegral (h : node.isIntegral = true) : Lookup limit node :=
  ⟨node.isKey_of_isIntegral h, .inr h⟩

/-- What is found under a key is the layout of the type that is looked up. -/
theorem Invariant.compute_of_mem {x : Entry} (he : e.Invariant limit (Coherent limit))
    (hnode : Lookup limit node) (hx : x ∈ e.entries) (hholds : x.holds node p = true) :
    (node.bare.measure Setting.pure p).compute = .ok x.stored.result.bare := by
  have hlimit : limit ≠ some 0 := by
    rintro rfl
    rw [he.entries_eq_nil] at hx
    cases hx
  obtain ⟨hprofile, hkey⟩ := holds_iff.mp hholds
  obtain ⟨hint, hcompute⟩ := (he.kept x hx).resolve_left hlimit
  rw [hprofile] at hcompute
  rwa [TypeNode.bare_eq_of_sameKey x.node node hint (hnode.2.resolve_left hlimit) hkey] at hcompute

/-- **Integral types can be trusted**, and all keys when nothing is kept. -/
theorem trusted_lookup (limit : Option Int) : Trusted limit (Coherent limit) (Lookup limit) where
  isKey h := h.1
  found he h hx hholds := he.compute_of_mem h hx hholds
  kept h hr := h.2.imp id fun h => ⟨h, hr⟩

theorem Invariant.layout (hlimit : ∀ n ∈ limit, 0 ≤ n) (hnode : Lookup limit node)
    (he : e.Invariant limit (Coherent limit)) :
    ((Engine.layout p node).run e).2.Invariant limit (Coherent limit) ∧
      ((Engine.layout p node).run e).1.map LayoutResult.bare = layoutOf p node.bare := by
  have hlayout := (trusted_lookup limit).layout (p := p) (hereditary_lookup limit) (fun _ h => h)
    hnode hnode e he
  rwa [answers_iff hlimit, Comparison.rel_layouts_bare] at hlayout

/-! ## Histories -/

/-- Whether the type that a call asks about, if any, has whole numbers for its constants. -/
def Call.isIntegral : Call → Bool
  | .clear => true
  | .layout _ node => node.isIntegral

theorem Invariant.replay {calls : List Call} (hlimit : ∀ n ∈ limit, 0 ≤ n)
    (hcalls : ∀ c ∈ calls, c.isIntegral = true) (he : e.Invariant limit (Coherent limit)) :
    (e.replay calls).Invariant limit (Coherent limit) := by
  refine replay_induction he fun e c hc he => ?_
  cases c with
  | clear => exact he.clear
  | layout p node => exact (he.layout hlimit (.of_isIntegral (hcalls _ hc))).1

/-- An engine that was asked about integral types only. -/
def HasIntegralHistory (e : Engine) : Prop :=
  ∃ (channels : Channels) (limit : Option Int) (calls : List Call), (∀ n ∈ limit, 0 ≤ n) ∧
    (∀ c ∈ calls, c.isIntegral = true) ∧ (make channels limit).replay calls = e

/-- What such an engine answers for an integral type is the plain layout, up to origins. -/
theorem HasIntegralHistory.layout_eq (he : e.HasIntegralHistory) (p : Profile) {node : TypeNode}
    (hnode : node.isIntegral = true) :
    ((layout p node).run e).1.map LayoutResult.bare = (layoutOf p node).map LayoutResult.bare := by
  obtain ⟨channels, limit, calls, hlimit, hcalls, rfl⟩ := he
  have hreplayed := (invariant_make channels limit).replay hlimit hcalls
  rw [(hreplayed.layout hlimit (.of_isIntegral hnode)).2, layoutOf_bare]

/-- Such an engine fails as the plain layout does, and only then. -/
theorem HasIntegralHistory.map_layout (he : e.HasIntegralHistory) (p : Profile) {node : TypeNode}
    (hnode : node.isIntegral = true) :
    ((layout p node).run e).1.map (fun _ => ()) = (layoutOf p node).map fun _ => () := by
  have hrelated := Except.rel_eq_iff.mpr (he.layout_eq p hnode)
  exact Except.rel_eq_iff.mp (hrelated.imp fun _ _ _ => rfl)

theorem HasIntegralHistory.exists_layout_iff (he : e.HasIntegralHistory) (p : Profile)
    {node : TypeNode} (hnode : node.isIntegral = true) :
    (∃ r, ((layout p node).run e).1 = .ok r) ↔ ∃ r, layoutOf p node = .ok r := by
  have hsame := he.map_layout p hnode
  constructor
  · rintro ⟨r, hr⟩
    rw [hr] at hsame
    obtain ⟨t, ht, -⟩ := Except.map_eq_ok.mp hsame.symm
    exact ⟨t, ht⟩
  · rintro ⟨t, ht⟩
    rw [ht] at hsame
    obtain ⟨r, hr, -⟩ := Except.map_eq_ok.mp hsame
    exact ⟨r, hr⟩

/-- **The history of an engine does not show in its answers**: after any calls, failed ones
included, a layout comes out as from a fresh engine, with the same members or the same failure. -/
theorem layout_eq_fresh {channels channels' : Channels} {limit limit' : Option Int}
    (hlimit : ∀ n ∈ limit, 0 ≤ n) (hlimit' : ∀ n ∈ limit', 0 ≤ n) {calls : List Call}
    (hcalls : ∀ c ∈ calls, c.isIntegral = true) (p : Profile) {node : TypeNode}
    (hnode : node.isIntegral = true) :
    ((layout p node).run ((make channels limit).replay calls)).1.map LayoutResult.bare =
      ((layout p node).run (make channels' limit')).1.map LayoutResult.bare := by
  have hreplayed : ((make channels limit).replay calls).HasIntegralHistory :=
    ⟨channels, limit, calls, hlimit, hcalls, rfl⟩
  have hfresh : (make channels' limit').HasIntegralHistory :=
    ⟨channels', limit', [], hlimit', nofun, rfl⟩
  rw [hreplayed.layout_eq p hnode, hfresh.layout_eq p hnode]

/-- A header of three bits and a character. -/
def header : Aggregate where
  kind := .struct
  members :=
    [⟨.bitfield ⟨"int", some (.int 4), none⟩ (.int 3), some "version", .none⟩,
     ⟨.primitive ⟨"char", some (.int 1), none⟩, some "code", .none⟩]
  name := some "header"
  pack := none
  attributes := .none
  origin := .written ["header"]

/-- A packet that starts with a header. -/
def packet : Aggregate where
  kind := .struct
  members :=
    [⟨.aggregate header, some "head", .none⟩,
     ⟨.array (.primitive ⟨"short", some (.int 2), none⟩) [.int 3], some "body", .none⟩]
  name := some "packet"
  pack := none
  attributes := .none
  origin := .written ["packet"]

/-- An engine that keeps one layout answers for a packet as a fresh one does, after it has answered
for the header, under another profile too, and failed for a type that is only declared. -/
theorem layout_eq_fresh_packet :
    ((layout .sysvX8664 (.aggregate packet)).run ((make ["cache"] (some 1)).replay
        [.layout .sysvX8664 (.aggregate header), .layout .ilp32 (.aggregate packet),
          .layout .sysvX8664 (.incomplete (.name "opaque")),
          .layout .sysvX8664 (.aggregate header)])).1.map LayoutResult.bare =
      ((layout .sysvX8664 (.aggregate packet)).run (make [] none)).1.map LayoutResult.bare :=
  layout_eq_fresh (by decide) (by decide) (by decide) .sysvX8664 (by decide)

end

end RecordLayout.Engine
