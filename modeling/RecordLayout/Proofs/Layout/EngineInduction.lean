import RecordLayout.Proofs.Layout.Coherence
import RecordLayout.Proofs.Layout.Induction

/-!
# Induction on the layouts of an engine

A property of layouts that is closed under the walk over the members, and does not tell types apart
that are the same key, holds of all that an engine keeps and answers.

Between the two look-ups of an aggregate member nothing else is looked up.  An engine that may keep
a layout at all finds the one it has just served, and an engine that may keep none computes the same
one again.

## Main definitions

* `Engine.Keepable` is what a property of layouts must be for an engine to keep it;
* `Engine.postconditions` is the way to reason about the results of an engine.

## Main results

* `Engine.Invariant.exists_last`: a layout that has been served is the one used last;
* `Engine.postconditions_serves`: two look-ups in a row agree;
* `Engine.layout_ensures`: the induction principle.
-/

namespace RecordLayout.Engine

/-- A property of the layouts of aggregates that an engine can keep: it does not tell the same keys
apart, and the types whose layouts have it are keys that can be found. -/
structure Keepable (G : Profile → Aggregate → LayoutResult → Prop) : Prop where
  same : ∀ {p a b r}, a.sameKey b = true → G p a r → G p b r
  self : ∀ {p a r}, G p a r → a.sameKey a = true

/-- What is kept for aggregates satisfies `G`, what is kept for other types has no members, and
nothing is kept for an incomplete type. -/
structure Keeps (G : Profile → Aggregate → LayoutResult → Prop) (node : TypeNode) (p : Profile)
    (r : LayoutResult) : Prop where
  aggregate : ∀ a, node = .aggregate a → G p a r
  memberless : (∀ a, node ≠ .aggregate a) → r.members = []
  complete : ∀ label, node ≠ .incomplete label

section

variable {G : Profile → Aggregate → LayoutResult → Prop} {limit : Option Int} {e : Engine}
  {node : TypeNode} {p : Profile} {r : LayoutResult} {a : Aggregate}
  {P : TypeNode → Profile → LayoutResult → Prop} {compute : EngineM LayoutResult}

/-- A property that does not tell the same keys apart can be kept for the types that are keys. -/
theorem Keepable.of_same
    (same : ∀ {p a b r}, Aggregate.sameKey a b = true → G p a r → G p b r) :
    Keepable fun p a r => G p a r ∧ a.sameKey a = true where
  same h hr := ⟨same h hr.1, TypeNode.sameKey_self (m := .aggregate _) (n := .aggregate _) h⟩
  self hr := hr.2

theorem Keepable.keeps_of_sameKey (hG : Keepable G) {node' : TypeNode}
    (h : node'.sameKey node = true) (hr : Keeps G node' p r) : Keeps G node p r := by
  refine ⟨?_, fun hnode => hr.memberless ?_, ?_⟩
  · rintro a rfl
    cases node' with
    | aggregate b => exact hG.same h (hr.aggregate b rfl)
    | primitive | array | flexibleArray | bitfield | incomplete | unknown => cases h
  · rintro b rfl
    cases node with
    | aggregate a => exact hnode a rfl
    | primitive | array | flexibleArray | bitfield | incomplete | unknown => cases h
  · rintro label rfl
    cases node' with
    | incomplete label' => exact hr.complete label' rfl
    | primitive | aggregate | array | flexibleArray | bitfield | unknown => cases h

theorem Invariant.mono {Q : TypeNode → Profile → LayoutResult → Prop} (h : e.Invariant limit P)
    (hPQ : ∀ node p r, P node p r → Q node p r) : e.Invariant limit Q :=
  ⟨h.limit, fun x hx => hPQ _ _ _ (h.kept x hx), h.distinct, h.bounded⟩

/-! ## Look-ups -/

/-- What an engine finds for a key satisfies `G`. -/
theorem Invariant.keeps_of_find? (hG : Keepable G) (he : e.Invariant limit (Keeps G)) {x : Entry}
    (hfind : e.find? node p = some x) : Keeps G node p x.stored.result := by
  obtain ⟨hx, hholds⟩ := mem_of_find? hfind
  obtain ⟨rfl, hkey⟩ := holds_iff.mp hholds
  exact hG.keeps_of_sameKey hkey (he.kept x hx)

/-- **A look-up serves what the computation may return.** -/
theorem Invariant.serve_keeps (hG : Keepable G)
    (hcompute : ∀ e : Engine, e.Invariant limit (Keeps G) →
      (compute.run e).2.Invariant limit (Keeps G) ∧
        ∀ r, (compute.run e).1 = .ok r → Keeps G node p r)
    (he : e.Invariant limit (Keeps G)) :
    ((Engine.serve p node compute).run e).2.Invariant limit (Keeps G) ∧
      ∀ stored, ((Engine.serve p node compute).run e).1 = .ok stored →
        Keeps G node p stored.result := by
  have hlooks := looks_serve p node compute e
  generalize (Engine.serve p node compute).run e = out at hlooks ⊢
  have hmiss := hcompute _ (he.writeNote "cache" (lookupNote "miss" node p))
  cases hlooks with
  | refused key => exact ⟨he, nofun⟩
  | hit found =>
    refine ⟨(he.touch (mem_of_find? found).1).writeNote _ _, ?_⟩
    rintro _ ⟨⟩
    exact he.keeps_of_find? hG found
  | failed key missed run =>
    rw [run] at hmiss
    exact ⟨hmiss.1, nofun⟩
  | @overdrawn r e' key missed run overdrawn =>
    rw [run] at hmiss
    exact ⟨hmiss.1.keep (hmiss.2 r rfl), nofun⟩
  | @kept r e' key missed run drawn =>
    rw [run] at hmiss
    refine ⟨hmiss.1.keep (hmiss.2 r rfl), ?_⟩
    rintro _ ⟨⟩
    -- What is served is the layout computed, or one that the computation kept under the same key.
    obtain ⟨init, x, hx, hstored, -⟩ := e'.exists_keep node p r
    rw [hstored]
    cases hx with
    | found found => exact hmiss.1.keeps_of_find? hG found
    | new new => exact new ▸ hmiss.2 r rfl

/-- The entry that was used last is found, when it is one of the key. -/
theorem Invariant.find?_last (he : e.Invariant limit P) {init : List Entry} {x : Entry}
    (hlast : e.entries = init ++ [x]) (hx : x.holds node p = true) : e.find? node p = some x := by
  have hdistinct := he.distinct
  rw [hlast, List.pairwise_append] at hdistinct
  have hinit : init.find? (Entry.holds node p) = none := by
    rw [List.find?_eq_none]
    intro y hy hholds
    exact hdistinct.2.2 y hy x (List.mem_singleton.mpr rfl) node p ⟨hholds, hx⟩
  rw [find?, hlast, List.find?_append, hinit]
  simp [hx]

/-- A limit that is positive keeps the last entry. -/
theorem withinLimit_concat (hlimit : ∀ n ∈ limit, 0 < n) (init : List Entry) (x : Entry) :
    ∃ rest, withinLimit limit (init ++ [x]) = rest ++ [x] := by
  cases limit with
  | none => exact ⟨init, rfl⟩
  | some n =>
    have hn := hlimit n rfl
    refine ⟨init.drop ((init ++ [x]).length - n.toNat), ?_⟩
    rw [withinLimit, List.drop_append_of_le_length]
    rw [List.length_append, List.length_singleton]
    omega

/-- **What has been served is used last**, in an engine that may keep a layout. -/
theorem Invariant.exists_last (hlimit : ∀ n ∈ limit, 0 < n)
    (hcompute : ∀ e : Engine, e.Invariant limit P →
      (compute.run e).2.Invariant limit P ∧ ∀ r, (compute.run e).1 = .ok r →
        node.sameKey node = true)
    (he : e.Invariant limit P) {stored : Stored}
    (hstored : ((Engine.serve p node compute).run e).1 = .ok stored) :
    ∃ init x, ((Engine.serve p node compute).run e).2.entries = init ++ [x] ∧
      x.holds node p = true ∧ x.stored = stored := by
  have hlooks := looks_serve p node compute e
  generalize (Engine.serve p node compute).run e = out at hlooks hstored ⊢
  have hmiss := hcompute _ (he.writeNote "cache" (lookupNote "miss" node p))
  cases hlooks with
  | refused | failed | overdrawn => cases hstored
  | @hit x found =>
    refine ⟨e.entries.filter fun y => y.stored.serial != x.stored.serial, x, ?_,
      (mem_of_find? found).2, Except.ok.inj hstored⟩
    dsimp only [Engine.writeNote]
    split <;> rfl
  | @kept r e' key missed run drawn =>
    rw [run] at hmiss
    obtain ⟨init, x, hx, hstored', hentries⟩ := e'.exists_keep node p r
    rw [hmiss.1.limit] at hentries
    obtain ⟨rest, hrest⟩ := withinLimit_concat hlimit init x
    refine ⟨rest, x, hentries.trans hrest, ?_, hstored'.symm.trans (Except.ok.inj hstored)⟩
    cases hx with
    | found found => exact (mem_of_find? found).2
    | new new => exact new ▸ holds_iff.mpr ⟨rfl, hmiss.2 r rfl⟩

/-! ## Results -/

/-- Postconditions of the computations of engines with a limit that keep what satisfies `G`. -/
def postconditions (limit : Option Int) (G : Profile → Aggregate → LayoutResult → Prop)
    (p : Profile) : Postconditions (setting p) where
  Ensures x Q := ∀ e : Engine, e.Invariant limit (Keeps G) →
    (x.run e).2.Invariant limit (Keeps G) ∧ ∀ a, (x.run e).1 = .ok a → Q a
  of_pure h e he := ⟨he, fun _ ha => Except.ok.inj ha ▸ h⟩
  bind {α β x f Q R} hx hf e he := by
    obtain ⟨he', hQ⟩ := hx e he
    rw [EngineM.run_bind]
    generalize x.run e = out at he' hQ ⊢
    obtain ⟨failure | a, e'⟩ := out
    · exact ⟨he', nofun⟩
    · exact hf a (hQ a rfl) e' he'
  fail e he := ⟨he, nofun⟩
  within {α name x Q} hx e he := by
    refine ⟨(hx e he).1, fun a ha => (hx e he).2 a ?_⟩
    exact Except.mapError_eq_ok.mp ha
  note e he := ⟨he.writeNotes "bitfields" _, fun _ _ => trivial⟩

/-- A computation that starts with a look-up. -/
theorem run_fetch_bind {α : Type} (f : LayoutResult → EngineM α) :
    ((setting p).fetch node compute >>= f).run e =
      match (Engine.serve p node compute).run e with
      | (.ok stored, e') => (f stored.result).run e'
      | (.error failure, e') => (.error failure, e') := by
  rw [EngineM.run_bind, run_fetch]
  rcases (Engine.serve p node compute).run e with ⟨failure | stored, e'⟩ <;> rfl

theorem keeps_of_ensures
    (h : (postconditions limit G p).Ensures (a.compute (setting p) p) (G p a)) :
    (postconditions limit G p).Ensures (a.compute (setting p) p) fun r =>
      Keeps G (.aggregate a) p r := fun e he =>
  ⟨(h e he).1, fun r hr => ⟨fun _ hb => TypeNode.aggregate.inj hb ▸ (h e he).2 r hr,
    fun hnode => absurd rfl (hnode a), nofun⟩⟩

/-- An engine that may keep a layout serves the same one again. -/
theorem Invariant.serve_again (hlimit : ∀ n ∈ limit, 0 < n) (hG : Keepable G)
    (hcompute : (postconditions limit G p).Ensures compute fun r => Keeps G node p r)
    (hself : (postconditions limit G p).Ensures compute fun _ => node.sameKey node = true)
    (he : e.Invariant limit (Keeps G)) {e₁ : Engine} {stored₁ stored₂ : Stored}
    (h₁ : (Engine.serve p node compute).run e = (.ok stored₁, e₁))
    (h₂ : ((Engine.serve p node compute).run e₁).1 = .ok stored₂) : stored₁ = stored₂ := by
  have he₁ := (he.serve_keeps hG hcompute).1
  obtain ⟨init, x, hentries, hholds, hstored⟩ := he.exists_last hlimit hself (congrArg Prod.fst h₁)
  rw [h₁] at he₁ hentries
  have hfind := he₁.find?_last hentries hholds
  -- The second look-up is a hit on the entry that the first one used.
  have hlooks := looks_serve p node compute e₁
  generalize (Engine.serve p node compute).run e₁ = out at hlooks h₂
  cases hlooks with
  | refused | failed | overdrawn => cases h₂
  | hit found =>
    obtain rfl := Option.some.inj (found.symm.trans hfind)
    exact hstored.symm.trans (Except.ok.inj h₂)
  | kept key missed run drawn =>
    rw [hfind] at missed
    cases missed

/-- An engine that may keep no layout computes the same one again. -/
theorem Invariant.serve_anew (he : e.Invariant (some 0) P) (node : TypeNode) {e₁ : Engine}
    (he₁ : e₁.Invariant (some 0) P) {stored₁ stored₂ : Stored}
    (h₁ : ((Engine.serve p node (node.measure (setting p) p).compute).run e).1 = .ok stored₁)
    (h₂ : ((Engine.serve p node (node.measure (setting p) p).compute).run e₁).1 = .ok stored₂) :
    stored₁.result.bare = stored₂.result.bare := by
  have hkey : node.isKey = true := by
    have hlooks := looks_serve p node (node.measure (setting p) p).compute e
    generalize (Engine.serve p node (node.measure (setting p) p).compute).run e = out at hlooks h₁
    cases hlooks with
    | refused | failed | overdrawn => cases h₁
    | hit found =>
      have hmem := (mem_of_find? found).1
      rw [he.entries_eq_nil] at hmem
      cases hmem
    | kept key missed run drawn => exact key
  have hserve := (trusted_lookup (some 0)).serve_node (p := p) (hereditary_lookup _) (fun _ h => h)
    ⟨hkey, .inl rfl⟩ ⟨hkey, .inl rfl⟩
  have hs := (hserve e (he.mono fun _ _ _ _ => .inl rfl)).2
  have hs₁ := (hserve e₁ (he₁.mono fun _ _ _ _ => .inl rfl)).2
  rw [h₁] at hs
  rw [h₂] at hs₁
  obtain ⟨r, hr, hbare⟩ := hs.ok
  obtain ⟨r₁, hr₁, hbare₁⟩ := hs₁.ok
  obtain rfl := Except.ok.inj (hr.symm.trans hr₁)
  rw [Comparison.layouts_bare.mp hbare, Comparison.layouts_bare.mp hbare₁]

/-- An engine with a negative limit serves nothing. -/
theorem Invariant.serve_negative {n : Int} (hn : n < 0) (he : e.Invariant (some n) (Keeps G))
    (hcompute : (postconditions (some n) G p).Ensures compute fun r => Keeps G node p r)
    (stored : Stored) : ((Engine.serve p node compute).run e).1 ≠ .ok stored := by
  intro h
  have hlooks := looks_serve p node compute e
  have hmiss := hcompute _ (he.writeNote "cache" (lookupNote "miss" node p))
  generalize (Engine.serve p node compute).run e = out at hlooks h
  cases hlooks with
  | refused | failed | overdrawn => cases h
  | hit found =>
    have hnil : e.entries = [] := List.eq_nil_of_length_eq_zero <| Nat.le_zero.mp <|
      Int.toNat_of_nonpos (Int.le_of_lt hn) ▸ he.bounded n he.limit
    have hmem := (mem_of_find? found).1
    rw [hnil] at hmem
    cases hmem
  | @kept r e' key missed run drawn =>
    rw [run] at hmiss
    have hlimit := (hmiss.1.keep (hmiss.2 r rfl)).limit
    simp [isOverdrawn, hlimit] at drawn
    omega

/-- **Two look-ups in a row agree** on the size and the alignment. -/
theorem Invariant.serve_twice (hG : Keepable G)
    (hcompute : (postconditions limit G p).Ensures (a.compute (setting p) p) (G p a))
    (he : e.Invariant limit (Keeps G)) {e₁ : Engine} {stored₁ : Stored} (stored₂ : Stored)
    (h₁ : (Engine.serve p (.aggregate a) (a.compute (setting p) p)).run e = (.ok stored₁, e₁))
    (h₂ : ((Engine.serve p (.aggregate a) (a.compute (setting p) p)).run e₁).1 = .ok stored₂) :
    stored₁.result.extent = stored₂.result.extent := by
  have hkeeps := keeps_of_ensures hcompute
  have hself : (postconditions limit G p).Ensures (a.compute (setting p) p) fun _ =>
      (TypeNode.aggregate a).sameKey (.aggregate a) = true := fun e he =>
    ⟨(hcompute e he).1, fun r hr => hG.self ((hcompute e he).2 r hr)⟩
  -- A positive limit keeps what was served, zero keeps nothing, and a negative one serves nothing.
  by_cases hpos : ∀ n ∈ limit, 0 < n
  · rw [he.serve_again hpos hG hkeeps hself h₁ h₂]
  · obtain ⟨n, rfl, hn⟩ : ∃ n, limit = some n ∧ n ≤ 0 := by
      cases limit with
      | none => exact absurd (by simp) hpos
      | some n => exact ⟨n, rfl, by simpa using hpos⟩
    by_cases hzero : n = 0
    · subst hzero
      have he₁ := (he.serve_keeps hG hkeeps).1
      rw [h₁] at he₁
      have hbare := he.serve_anew (.aggregate a) he₁ (congrArg Prod.fst h₁) h₂
      rw [← LayoutResult.bare_extent, hbare, LayoutResult.bare_extent]
    · exact absurd (congrArg Prod.fst h₁) (he.serve_negative (by omega) hkeeps stored₁)

/-- **An engine keeps what is closed under the walk**, and two look-ups in a row agree. -/
theorem postconditions_serves (hG : Keepable G) :
    (postconditions limit G p).Serves p (G p) where
  once {a} h e he := by
    have hkeeps := keeps_of_ensures h
    obtain ⟨he', hstored⟩ := he.serve_keeps hG hkeeps
    rw [run_fetch]
    refine ⟨he', fun r hr => ?_⟩
    obtain ⟨stored, hs, rfl⟩ := Except.map_eq_ok.mp hr
    exact (hstored stored hs).aggregate a rfl
  twice {a} make h e he := by
    have hkeeps := keeps_of_ensures h
    have hfirst := he.serve_keeps hG hkeeps
    rw [run_fetch_bind]
    -- The first look-up is the one of the extent, the second that of the layout.
    rcases h₁ : (Engine.serve p (.aggregate a) (a.compute (setting p) p)).run e with
      ⟨f | stored₁, e₁⟩
    · rw [h₁] at hfirst
      exact ⟨hfirst.1, nofun⟩
    · rw [h₁] at hfirst
      obtain ⟨he₁, hstored₁⟩ := hfirst
      dsimp only at he₁ hstored₁ ⊢
      cases hmake : make stored₁.result with
      | error f => exact ⟨he₁, nofun⟩
      | ok x =>
        have hsecond := he₁.serve_keeps hG hkeeps
        have hagree := fun stored₂ => he.serve_twice hG h stored₂ h₁
        simp only [Setting.lift, pure_bind, run_fetch_bind]
        generalize (Engine.serve p (.aggregate a) (a.compute (setting p) p)).run e₁ = out
          at hsecond hagree ⊢
        obtain ⟨f | stored₂, e₂⟩ := out
        · exact ⟨hsecond.1, nofun⟩
        · refine ⟨hsecond.1, ?_⟩
          rintro _ ⟨⟩
          have hextent := hagree stored₂ rfl
          simp only [LayoutResult.extent, Extent.mk.injEq] at hextent
          exact ⟨(hstored₁ stored₁ rfl).aggregate a rfl, (hsecond.2 stored₂ rfl).aggregate a rfl,
            hmake, hextent.1, hextent.2.1⟩

/-- A layout that an engine answers with is one that it may keep. -/
theorem Invariant.layout_keeps {E : Profile → TypeNode → Extent → Prop} (hG : Keepable G)
    (inv : ∀ p, LayoutInvariant p (E p) (G p)) (he : e.Invariant limit (Keeps G)) :
    ((Engine.layout p node).run e).2.Invariant limit (Keeps G) ∧
      ∀ r, ((Engine.layout p node).run e).1 = .ok r → Keeps G node p r := by
  have hserves : (postconditions limit G p).Serves p (G p) := postconditions_serves hG
  have hmeasures := Postconditions.measures_node hserves (inv p) node
  obtain ⟨he', hstored⟩ := he.serve_keeps hG fun e he =>
    (hmeasures.root e he).imp_right fun h r hr => ⟨(h r hr).1, (h r hr).2.1, (h r hr).2.2⟩
  rw [run_layout]
  refine ⟨he', fun r hr => ?_⟩
  obtain ⟨stored, hs, rfl⟩ := Except.map_eq_ok.mp (Failure.within_eq_ok.mp hr)
  exact hstored stored hs

/-- After any calls, an engine has kept what it may keep. -/
theorem invariant_replay {E : Profile → TypeNode → Extent → Prop} (hG : Keepable G)
    (inv : ∀ p, LayoutInvariant p (E p) (G p)) (channels : Channels) (limit : Option Int)
    (calls : List Call) : ((make channels limit).replay calls).Invariant limit (Keeps G) := by
  refine replay_induction (invariant_make channels limit) fun e c _ he => ?_
  cases c with
  | clear => exact he.clear
  | layout p node => exact (he.layout_keeps hG inv).1

/-- After any calls, an engine answers with what it may keep. -/
theorem keeps_of_layout {E : Profile → TypeNode → Extent → Prop} (hG : Keepable G)
    (inv : ∀ p, LayoutInvariant p (E p) (G p)) {channels : Channels} {calls : List Call}
    (h : ((layout p node).run ((make channels limit).replay calls)).1 = .ok r) :
    Keeps G node p r :=
  ((invariant_replay hG inv channels limit calls).layout_keeps hG inv).2 r h

/-- **Induction on the layouts of an engine**: after any calls, what is closed under the walk holds
of the layout of an aggregate. -/
theorem layout_ensures {E : Profile → TypeNode → Extent → Prop} (hG : Keepable G)
    (inv : ∀ p, LayoutInvariant p (E p) (G p)) {channels : Channels} {calls : List Call}
    (h : ((layout p (.aggregate a)).run ((make channels limit).replay calls)).1 = .ok r) :
    G p a r :=
  (keeps_of_layout hG inv h).aggregate a rfl

end

end RecordLayout.Engine
