import RecordLayout.Document.Basic
import RecordLayout.Proofs.Outcome

/-!
# Resolution without a table

The entries of a document are resolved with a table, so each one is resolved inside whichever entry
asks for it first.  Here the same walk is done without a table, where the type of an entry depends
on nothing but the document and the entries that are being resolved, and the two are shown to agree,
failures included.

A type in the table was computed while certain entries were being resolved.  It is right for other
ones too: all that it needed is in the table by now, so none of it is being resolved.

## Main definitions

* `resolveAnew` resolves an entry without a table;
* `Resolved.Valid` says that a table holds what resolving anew gives;
* `Tabled` compares a computation that uses a table with one that uses none.

## Main results

* `resolveAnew_eq`: what resolving an entry anew does;
* `tabled_resolveEntry`: a table changes nothing;
* `resolveAll_eq_mapM`: the entries of a document are resolved each on its own.
-/

namespace RecordLayout

/-- **Induction on specifications**: the types of the members of an aggregate are specified within
it. -/
@[elab_as_elim]
theorem Spec.induction {motive : Spec → Prop}
    (named : ∀ place spelling, motive (.named place spelling))
    (primitive : ∀ p, motive (.primitive p))
    (aggregate : ∀ a : AggregateSpec,
      (∀ type name attributes, .member type name attributes ∈ a.members → motive type) →
        motive (.aggregate a))
    (aliased : ∀ target, motive target → motive (.alias target))
    (shaped : ∀ element shape, motive element → motive (.shaped element shape))
    (bitfield : ∀ place base width, motive base → motive (.bitfield place base width))
    (fault : ∀ f, motive (.fault f)) (s : Spec) : motive s :=
  let OfMember (x : MemberSpec) : Prop :=
    ∀ type name attributes, x = .member type name attributes → motive type
  have ofMembers {xs : List MemberSpec} (h : ∀ x ∈ xs, OfMember x) :
      ∀ type name attributes, .member type name attributes ∈ xs → motive type :=
    fun type name attributes hmem => h _ hmem type name attributes rfl
  @Spec.rec motive (fun a => ∀ x ∈ a.members, OfMember x) OfMember (fun xs => ∀ x ∈ xs, OfMember x)
    named primitive (fun a ih => aggregate a (ofMembers ih)) aliased shaped bitfield fault
    (fun _ _ _ _ _ _ members => members)
    (fun _ _ _ ih _ _ _ h => (MemberSpec.member.inj h).1 ▸ ih) (fun _ _ _ _ h => nomatch h) nofun
    (fun _ _ head tail => List.forall_mem_cons.mpr ⟨head, tail⟩) s

variable {source : String} {entries : List Entry}

/-! ## Resolving an entry -/

section Entries

variable {m : Type → Type} [Monad m] [MonadExcept Failure m]
  {fetch : String → m TypeNode → m TypeNode} {active : List String} {name : String}

theorem resolveEntry_of_mem (h : name ∈ active) :
    resolveEntry source entries fetch active name =
      fetch name (throw (cycleFailure active name)) := by
  rw [resolveEntry, dif_pos h]

theorem resolveEntry_of_find?_eq_none (h : name ∉ active)
    (he : entries.find? (fun e => e.name == name) = none) :
    resolveEntry source entries fetch active name =
      fetch name (pure (.primitive ⟨name, none, none⟩)) := by
  rw [resolveEntry, dif_neg h]
  split
  · rfl
  · simp_all

theorem resolveEntry_of_find?_eq_some {e : Entry} (h : name ∉ active)
    (he : entries.find? (fun e => e.name == name) = some e) :
    resolveEntry source entries fetch active name =
      fetch name (e.spec.resolve source
        (lookUp source entries (resolveEntry source entries fetch (name :: active)))) := by
  rw [resolveEntry, dif_neg h]
  split
  · simp_all
  · rename_i e' he'
    obtain rfl : e' = e := Option.some.inj (he'.symm.trans he)
    rfl

/-- The type of an entry, computed anew whenever it is asked for. -/
def resolveAnew (source : String) (entries : List Entry) (active : List String) (name : String) :
    Except Failure TypeNode :=
  resolveEntry source entries (fun _ compute => compute) active name

theorem resolveAnew_of_mem (h : name ∈ active) :
    resolveAnew source entries active name = .error (cycleFailure active name) :=
  resolveEntry_of_mem h

theorem resolveAnew_of_find?_eq_none (h : name ∉ active)
    (he : entries.find? (fun e => e.name == name) = none) :
    resolveAnew source entries active name = .ok (.primitive ⟨name, none, none⟩) :=
  resolveEntry_of_find?_eq_none h he

theorem resolveAnew_of_find?_eq_some {e : Entry} (h : name ∉ active)
    (he : entries.find? (fun e => e.name == name) = some e) :
    resolveAnew source entries active name =
      e.spec.resolve source
        (lookUp source entries (resolveAnew source entries (name :: active))) :=
  resolveEntry_of_find?_eq_some h he

end Entries

/-! ## Tables -/

/-- None of the entries that are being resolved is in the table. -/
def Resolved.Apart (table : Resolved) (active : List String) : Prop :=
  ∀ r ∈ table, r.1 ∉ active

/-- What the table has for a name is what resolving the entry anew gives, whichever entries outside
the table are being resolved. -/
def Resolved.Valid (source : String) (entries : List Entry) (table : Resolved) : Prop :=
  ∀ r ∈ table, ∀ active, table.Apart active →
    resolveAnew source entries active r.1 = .ok r.2

theorem Resolved.valid_nil : Resolved.Valid source entries [] := by
  intro r hr
  simp at hr

theorem Resolved.Apart.mono {table table' : Resolved} {active : List String}
    (h : table'.Apart active) (hsub : table ⊆ table') : table.Apart active :=
  fun r hr => h r (hsub hr)

theorem Resolved.Apart.cons {table : Resolved} {active : List String} {name : String}
    (h : table.Apart active) (hn : ∀ r ∈ table, r.1 ≠ name) : table.Apart (name :: active) := by
  intro r hr
  simp only [List.mem_cons, not_or]
  exact ⟨hn r hr, h r hr⟩

theorem Resolved.apart_cons_iff {table : Resolved} {active : List String} {r : String × TypeNode} :
    Resolved.Apart (r :: table) active ↔ r.1 ∉ active ∧ table.Apart active :=
  List.forall_mem_cons

/-- A type found by resolving anew, with all that it needs in the table, may be added. -/
theorem Resolved.Valid.cons {table : Resolved} {name : String} {node : TypeNode}
    (h : table.Valid source entries)
    (hnode : ∀ active, name ∉ active → table.Apart active →
      resolveAnew source entries active name = .ok node) :
    Resolved.Valid source entries ((name, node) :: table) := by
  intro r hr active hactive
  rw [Resolved.apart_cons_iff] at hactive
  rcases List.mem_cons.mp hr with rfl | hr
  · exact hnode active hactive.1 hactive.2
  · exact h r hr active hactive.2

/-! ## Computations with a table -/

section Tabled

variable {α β : Type} {active : List String}

/-- While the entries `active` are being resolved, `x`, which uses a table, comes out as `y` does,
which uses none.  The table only grows, and with the table that `x` leaves behind `y` comes out the
same whichever entries outside of it are being resolved. -/
def Tabled (source : String) (entries : List Entry) (active : List String) (x : ResolveM α)
    (y : List String → Except Failure α) : Prop :=
  ∀ table : Resolved, table.Valid source entries → table.Apart active →
    match y active with
    | .error f => x.run table = .error f
    | .ok a => ∃ table' : Resolved, x.run table = .ok (a, table') ∧ table ⊆ table' ∧
        table'.Valid source entries ∧ table'.Apart active ∧
        ∀ active', table'.Apart active' → y active' = .ok a

theorem Tabled.pure (a : α) : Tabled source entries active (pure a) fun _ => .ok a :=
  fun table hv ha => ⟨table, rfl, List.Subset.refl _, hv, ha, fun _ _ => rfl⟩

theorem Tabled.throw (f : Failure) :
    Tabled source entries active (throw f : ResolveM α) fun _ => .error f :=
  fun _ _ _ => rfl

theorem Tabled.ofExcept (x : Except Failure α) :
    Tabled source entries active (MonadExcept.ofExcept x) fun _ => MonadExcept.ofExcept x := by
  cases x with
  | error f => exact Tabled.throw f
  | ok a => exact Tabled.pure a

theorem Tabled.bind {x : ResolveM α} {y : List String → Except Failure α} {f : α → ResolveM β}
    {g : List String → α → Except Failure β} (h : Tabled source entries active x y)
    (hfg : ∀ a, Tabled source entries active (f a) fun active => g active a) :
    Tabled source entries active (x >>= f) fun active => y active >>= g active := by
  intro table hv ha
  specialize h table hv ha
  cases hy : y active with
  | error e =>
    simp only [hy] at h ⊢
    rw [StateT.run_bind, h]
    rfl
  | ok a =>
    simp only [hy] at h ⊢
    obtain ⟨table', hx, hsub, hv', ha', hany⟩ := h
    specialize hfg a table' hv' ha'
    rw [StateT.run_bind, hx]
    change match g active a with | .error e => _ | .ok b => _
    cases hg : g active a with
    | error e =>
      simp only [hg] at hfg
      exact hfg
    | ok b =>
      simp only [hg] at hfg
      obtain ⟨table'', hf, hsub', hv'', ha'', hany'⟩ := hfg
      refine ⟨table'', hf, List.Subset.trans hsub hsub', hv'', ha'', fun active' h' => ?_⟩
      rw [hany active' (h'.mono hsub')]
      exact hany' active' h'

theorem Tabled.map {x : ResolveM α} {y : List String → Except Failure α}
    (h : Tabled source entries active x y) (f : α → β) :
    Tabled source entries active (x >>= fun a => Pure.pure (f a)) fun active => (y active).map f :=
  h.bind fun a => Tabled.pure (f a)

theorem Tabled.mapM {f : α → ResolveM β} {g : List String → α → Except Failure β}
    (h : ∀ a, Tabled source entries active (f a) fun active => g active a) (xs : List α) :
    Tabled source entries active (xs.mapM f) fun active => xs.mapM (g active) := by
  induction xs with
  | nil => exact Tabled.pure []
  | cons x xs ih =>
    simp only [List.mapM_cons]
    exact (h x).bind fun y => ih.bind fun ys => Tabled.pure (y :: ys)

/-- A walk begins with no table and while nothing is being resolved. -/
theorem Tabled.run'_nil {x : ResolveM α} {y : List String → Except Failure α}
    (h : Tabled source entries [] x y) : x.run' [] = y [] := by
  specialize h [] Resolved.valid_nil fun r hr => by simp at hr
  change (fun p => p.1) <$> x.run [] = y []
  cases hy : y [] with
  | error f =>
    simp only [hy] at h
    rw [h]
    rfl
  | ok a =>
    simp only [hy] at h
    obtain ⟨table, hrun, -⟩ := h
    rw [hrun]
    rfl

section Specifications

variable {lookup : Place → String → ResolveM TypeNode}
  {lookup' : List String → Place → String → Except Failure TypeNode}

/-- A table changes nothing for members if it changes nothing for their types. -/
theorem tabled_resolveMembers {xs : List MemberSpec}
    (h : ∀ type name attributes, .member type name attributes ∈ xs →
      Tabled source entries active (Spec.resolve source lookup type) fun active =>
        type.resolve source (lookup' active)) :
    Tabled source entries active (resolveMembers source lookup xs) fun active =>
      resolveMembers source (lookup' active) xs := by
  induction xs with
  | nil => exact Tabled.pure []
  | cons x xs ih =>
    have hfirst : Tabled source entries active (x.resolve source lookup) fun active =>
        x.resolve source (lookup' active) := by
      cases x with
      | member type name attributes =>
        exact (h type name attributes List.mem_cons_self).bind fun _ =>
          (Tabled.ofExcept attributes).bind fun _ => Tabled.pure _
      | fault f => exact Tabled.throw f
    have hrest := ih fun type name attributes hmem =>
      h type name attributes (List.mem_cons_of_mem x hmem)
    exact hfirst.bind fun y => hrest.bind fun ys => Tabled.pure (y :: ys)

/-- A table changes nothing for a specification if it changes nothing for the names in it. -/
theorem Spec.tabled_resolve (s : Spec) (h : ∀ place spelling,
      Tabled source entries active (lookup place spelling) fun active =>
        lookup' active place spelling) :
    Tabled source entries active (s.resolve source lookup) fun active =>
      s.resolve source (lookup' active) := by
  induction s using Spec.induction with
  | named place spelling => exact h place spelling
  | primitive p => exact Tabled.pure _
  | aggregate a ih =>
    obtain ⟨kind, members, name, pack, attributes, place⟩ := a
    have hmembers := tabled_resolveMembers ih
    have haggregate := hmembers.bind fun xs => (Tabled.ofExcept attributes).bind fun attributes =>
      Tabled.pure (Aggregate.mk kind xs name (pack.map Json.int) attributes (.written place))
    exact haggregate.bind fun a => Tabled.pure (TypeNode.aggregate a)
  | aliased target ih => exact ih
  | shaped element shape ih =>
    refine ih.bind fun e => (Tabled.ofExcept shape).bind fun s => ?_
    cases s with
    | flexible => exact Tabled.pure _
    | dimensions dims => exact Tabled.pure _
  | bitfield place base width ih =>
    refine ih.bind fun b => ?_
    cases b with
    | primitive p => exact Tabled.pure _
    | _ => exact Tabled.throw _
  | fault f => exact Tabled.throw f

end Specifications

theorem tabled_lookUp {enter : String → ResolveM TypeNode}
    {enter' : List String → String → Except Failure TypeNode}
    (h : ∀ name, Tabled source entries active (enter name) fun active => enter' active name)
    (place : Place) (spelling : String) :
    Tabled source entries active (lookUp source entries enter place spelling) fun active =>
      lookUp source entries (enter' active) place spelling := by
  unfold lookUp
  cases referenceOf? entries (TypeName.normalize spelling) with
  | none => exact Tabled.throw _
  | some r =>
    cases r with
    | primitive p => exact Tabled.pure _
    | incomplete t => exact Tabled.pure _
    | entry n => exact h n

end Tabled

/-! ## The table of a document -/

/-- Fetching by way of the table changes nothing if the computation changes nothing for an entry
that is neither in the table nor being resolved, and finds that such an entry is the root of a
cycle otherwise. -/
theorem tabled_fetch {active : List String} {name : String} {compute : ResolveM TypeNode}
    (h : ∀ table : Resolved, table.Valid source entries → table.Apart active →
      (∀ r ∈ table, r.1 ≠ name) →
      match resolveAnew source entries active name with
      | .error f => compute.run table = .error f
      | .ok a => ∃ table' : Resolved, compute.run table = .ok (a, table') ∧ table ⊆ table' ∧
          Resolved.Valid source entries ((name, a) :: table') ∧
          Resolved.Apart ((name, a) :: table') active) :
    Tabled source entries active (ResolveM.fetch name compute) fun active =>
      resolveAnew source entries active name := by
  intro table hv ha
  cases hfind : table.find? fun r => r.1 == name with
  | some r =>
    obtain ⟨n, node⟩ := r
    have hrun : (ResolveM.fetch name compute).run table = .ok (node, table) := by
      simp only [ResolveM.fetch, StateT.run_bind, StateT.run_get, pure_bind, hfind]
      rfl
    rw [hrun]
    have hmem := List.mem_of_find?_eq_some hfind
    obtain rfl : n = name := by simpa using List.find?_some hfind
    have hany := hv _ hmem
    simp only [hany active ha]
    exact ⟨table, rfl, List.Subset.refl _, hv, ha, hany⟩
  | none =>
    have hrun : (ResolveM.fetch name compute).run table =
        (compute.run table).map fun p => (p.1, (name, p.1) :: p.2) := by
      simp only [ResolveM.fetch, StateT.run_bind, StateT.run_get, pure_bind, hfind,
        StateT.run_modify]
      cases compute.run table <;> rfl
    rw [hrun]
    specialize h table hv ha (by simpa [List.find?_eq_none] using hfind)
    cases hy : resolveAnew source entries active name with
    | error f =>
      simp only [hy] at h ⊢
      rw [h]
      rfl
    | ok a =>
      simp only [hy] at h ⊢
      obtain ⟨table', hx, hsub, hv', ha'⟩ := h
      refine ⟨(name, a) :: table', by rw [hx]; rfl, List.subset_cons_of_subset _ hsub, hv', ha', ?_⟩
      exact hv' _ List.mem_cons_self

/-- **A table changes nothing** for an entry. -/
theorem tabled_resolveEntry (active : List String) (name : String) :
    Tabled source entries active (resolveEntry source entries ResolveM.fetch active name)
      fun active => resolveAnew source entries active name := by
  -- Induction on the number of entries that are pending.
  induction hk : (pending entries active).length using Nat.strongRecOn
    generalizing active name with
  | ind k ih =>
    subst hk
    by_cases hn : name ∈ active
    · rw [resolveEntry_of_mem hn]
      refine tabled_fetch fun table hv ha hfresh => ?_
      rw [resolveAnew_of_mem hn]
      rfl
    cases he : entries.find? fun e => e.name == name with
    | none =>
      rw [resolveEntry_of_find?_eq_none hn he]
      refine tabled_fetch fun table hv ha hfresh => ?_
      rw [resolveAnew_of_find?_eq_none hn he]
      refine ⟨table, rfl, List.Subset.refl _, hv.cons fun active' hn' _ => ?_,
        Resolved.apart_cons_iff.mpr ⟨hn, ha⟩⟩
      exact resolveAnew_of_find?_eq_none hn' he
    | some e =>
      rw [resolveEntry_of_find?_eq_some hn he]
      refine tabled_fetch fun table hv ha hfresh => ?_
      have hspec := e.spec.tabled_resolve
        (tabled_lookUp fun n => ih _ (length_pending_cons_lt hn he) (name :: active) n rfl)
        table hv (ha.cons hfresh)
      rw [resolveAnew_of_find?_eq_some hn he]
      cases hy : e.spec.resolve source
          (lookUp source entries (resolveAnew source entries (name :: active))) with
      | error f =>
        simp only [hy] at hspec
        exact hspec
      | ok a =>
        simp only [hy] at hspec
        obtain ⟨table', hx, hsub, hv', ha', hany⟩ := hspec
        refine ⟨table', hx, hsub, hv'.cons fun active' hn' ha'' => ?_,
          Resolved.apart_cons_iff.mpr ⟨hn, fun r hr h => ha' r hr (List.mem_cons_of_mem name h)⟩⟩
        -- All that the entry needs is in the table by now, and the entry itself is not.
        rw [resolveAnew_of_find?_eq_some hn' he]
        exact hany _ (ha''.cons fun r hr h => ha' r hr (h ▸ List.mem_cons_self))

/-- **The entries of a document are resolved each on its own**, whichever the table holds by
then. -/
theorem resolveAll_eq_mapM : Document.resolveAll source entries =
    entries.mapM fun e =>
      (resolveAnew source entries [] e.name).map fun node => (e.name, node) := by
  have h (e : Entry) : Tabled source entries []
      (resolveEntry source entries ResolveM.fetch [] e.name >>= fun node => pure (e.name, node))
      fun active => (resolveAnew source entries active e.name).map fun node => (e.name, node) :=
    (tabled_resolveEntry [] e.name).map fun node => (e.name, node)
  exact Tabled.run'_nil (Tabled.mapM h entries)

end RecordLayout
