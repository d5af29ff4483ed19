import Mathlib.Data.List.Chain
import Mathlib.Logic.Relation
import RecordLayout.Proofs.Document.Order

/-!
# Types that contain themselves

An entry refers to another one by value when its specification spells the name of that entry
somewhere, other than as a pointer.  A document whose specifications have no faults of their own is
refused exactly when these references have a cycle, and the refusal names one.

The walk from an entry goes along references, and the entries that are being resolved are the ones
that it came through.  So an entry that is reached while it is being resolved closes a cycle; and a
walk that succeeds has gone along every reference, so it would have gone around any cycle.

## Main definitions

* `Spec.parts` has the specifications within a specification;
* `Refers` is the graph of references by value;
* `Spec.IsFaultless` and `ScalarBases` say that a document has no faults but cycles;
* `IsCycle` says that a list of names goes around a cycle.

## Main results

* `Spec.exists_lookup_of_resolve`: resolving a specification looks every name in it up;
* `isCycle_of_resolveAnew`: resolving an entry fails with a cycle only;
* `not_transGen_of_resolveAnew`: an entry that is resolved lies on no cycle;
* `Document.ofJson_containsItself`: a document without faults is refused exactly when it has a
  cycle.
-/

namespace RecordLayout

/-! ## The parts of a specification -/

mutual
/-- The specifications within a specification, itself included. -/
def Spec.parts : Spec → List Spec
  | .named place spelling => [.named place spelling]
  | .primitive p => [.primitive p]
  | .aggregate a => .aggregate a :: a.parts
  | .alias target => .alias target :: target.parts
  | .shaped element shape => .shaped element shape :: element.parts
  | .bitfield place base width => .bitfield place base width :: base.parts
  | .fault f => [.fault f]

/-- The specifications within that of an aggregate. -/
def AggregateSpec.parts : AggregateSpec → List Spec
  | ⟨_, members, _, _, _, _⟩ => partsOfMembers members

/-- The specifications within those of members. -/
def partsOfMembers : List MemberSpec → List Spec
  | [] => []
  | x :: xs => x.parts ++ partsOfMembers xs

/-- The specifications within that of a member. -/
def MemberSpec.parts : MemberSpec → List Spec
  | .member type _ _ => type.parts
  | .fault _ => []
end

/-- Whether the specification of a member has no fault outside its type. -/
def MemberSpec.IsWhole : MemberSpec → Prop
  | .member _ _ attributes => ∃ a, attributes = .ok a
  | .fault _ => False

/-- Whether a specification has no fault outside the specifications within it. -/
def Spec.IsWhole : Spec → Prop
  | .named _ spelling => TypeName.normalize spelling ≠ ""
  | .aggregate a => (∀ x ∈ a.members, x.IsWhole) ∧ ∃ attributes, a.attributes = .ok attributes
  | .shaped _ shape => ∃ s, shape = .ok s
  | .fault _ => False
  | .primitive _ | .alias _ | .bitfield _ _ _ => True

/-- Whether a specification has no fault of its own. -/
def Spec.IsFaultless (s : Spec) : Prop := ∀ t ∈ s.parts, t.IsWhole

/-! ## Resolving a specification -/

section Resolve

variable {source : String} {lookup : Place → String → Except Failure TypeNode}

mutual
/-- What is resolved has had every name in it looked up. -/
theorem Spec.exists_lookup_of_resolve {place : Place} {spelling : String} : (s : Spec) →
    {t : TypeNode} → s.resolve source lookup = .ok t → .named place spelling ∈ s.parts →
    ∃ t', lookup place spelling = .ok t'
  | .named _ _, t, h, hs => by
    obtain ⟨rfl, rfl⟩ := by simpa [Spec.parts] using hs
    exact ⟨t, h⟩
  | .primitive _, _, _, hs => by simp [Spec.parts] at hs
  | .aggregate a, _, h, hs => by
    obtain ⟨b, hb, -⟩ := Except.bind_eq_ok.mp h
    exact a.exists_lookup_of_resolve hb (by simpa [Spec.parts] using hs)
  | .alias target, _, h, hs =>
    target.exists_lookup_of_resolve h (by simpa [Spec.parts] using hs)
  | .shaped element _, _, h, hs => by
    obtain ⟨e, he, -⟩ := Except.bind_eq_ok.mp h
    exact element.exists_lookup_of_resolve he (by simpa [Spec.parts] using hs)
  | .bitfield _ base _, _, h, hs => by
    obtain ⟨b, hb, -⟩ := Except.bind_eq_ok.mp h
    exact base.exists_lookup_of_resolve hb (by simpa [Spec.parts] using hs)
  | .fault _, _, _, hs => by simp [Spec.parts] at hs

theorem AggregateSpec.exists_lookup_of_resolve {place : Place} {spelling : String} :
    (a : AggregateSpec) → {b : Aggregate} → a.resolve source lookup = .ok b →
    .named place spelling ∈ a.parts → ∃ t', lookup place spelling = .ok t'
  | ⟨_, members, _, _, _, _⟩, _, h, hs => by
    obtain ⟨xs, hxs, -⟩ := Except.bind_eq_ok.mp h
    exact exists_lookup_of_resolveMembers members hxs hs

theorem exists_lookup_of_resolveMembers {place : Place} {spelling : String} :
    (xs : List MemberSpec) → {ys : List Member} → resolveMembers source lookup xs = .ok ys →
    .named place spelling ∈ partsOfMembers xs → ∃ t', lookup place spelling = .ok t'
  | [], _, _, hs => by simp [partsOfMembers] at hs
  | x :: xs, _, h, hs => by
    obtain ⟨y, hy, h⟩ := Except.bind_eq_ok.mp h
    obtain ⟨ys, hys, -⟩ := Except.bind_eq_ok.mp h
    rcases List.mem_append.mp hs with hs | hs
    · exact x.exists_lookup_of_resolve hy hs
    · exact exists_lookup_of_resolveMembers xs hys hs

theorem MemberSpec.exists_lookup_of_resolve {place : Place} {spelling : String} :
    (x : MemberSpec) → {y : Member} → x.resolve source lookup = .ok y →
    .named place spelling ∈ x.parts → ∃ t', lookup place spelling = .ok t'
  | .member type _ _, _, h, hs => by
    obtain ⟨t, ht, -⟩ := Except.bind_eq_ok.mp h
    exact type.exists_lookup_of_resolve ht hs
  | .fault _, _, _, hs => by simp [MemberSpec.parts] at hs
end

section Fails

variable {Q : Failure → Prop}

/-- What `Spec.of_resolve_eq_error` asks of the parts of a specification. -/
structure FailsAs (source : String) (lookup : Place → String → Except Failure TypeNode)
    (Q : Failure → Prop) (parts : List Spec) : Prop where
  whole : ∀ t ∈ parts, t.IsWhole
  names : ∀ place spelling, .named place spelling ∈ parts →
    ∀ f, lookup place spelling = .error f → Q f
  bases : ∀ place base width, .bitfield place base width ∈ parts →
    ∀ t, base.resolve source lookup = .ok t → ∃ p, t = .primitive p

theorem FailsAs.mono {parts parts' : List Spec} (h : FailsAs source lookup Q parts)
    (hsub : parts' ⊆ parts) : FailsAs source lookup Q parts' where
  whole t ht := h.whole t (hsub ht)
  names place spelling hs := h.names place spelling (hsub hs)
  bases place base width hs := h.bases place base width (hsub hs)

theorem FailsAs.tail {s : Spec} {parts : List Spec} (h : FailsAs source lookup Q (s :: parts)) :
    FailsAs source lookup Q parts := h.mono (List.subset_cons_self s parts)

mutual
/-- A specification without faults of its own fails only as the names in it do. -/
theorem Spec.of_resolve_eq_error : (s : Spec) → FailsAs source lookup Q s.parts →
    ∀ {f}, s.resolve source lookup = .error f → Q f
  | .named place spelling, hs, f, h =>
    hs.names place spelling List.mem_cons_self f h
  | .primitive _, _, _, h => absurd h nofun
  | .aggregate a, hs, _, h => by
    obtain ⟨hmembers, attributes, hattributes⟩ := hs.whole _ List.mem_cons_self
    rcases Except.bind_eq_error.mp h with h | ⟨b, -, h⟩
    · exact a.of_resolve_eq_error hmembers ⟨attributes, hattributes⟩ hs.tail h
    · exact absurd h nofun
  | .alias target, hs, _, h => target.of_resolve_eq_error hs.tail h
  | .shaped element shape, hs, _, h => by
    obtain ⟨s, rfl⟩ : ∃ s, shape = .ok s := hs.whole _ List.mem_cons_self
    rcases Except.bind_eq_error.mp h with h | ⟨e, -, h⟩
    · exact element.of_resolve_eq_error hs.tail h
    · cases s <;> exact absurd h nofun
  | .bitfield place base width, hs, _, h => by
    rcases Except.bind_eq_error.mp h with h | ⟨t, ht, h⟩
    · exact base.of_resolve_eq_error hs.tail h
    · obtain ⟨p, rfl⟩ := hs.bases place base width List.mem_cons_self t ht
      exact absurd h nofun
  | .fault _, hs, _, _ => (hs.whole _ List.mem_cons_self).elim

theorem AggregateSpec.of_resolve_eq_error : (a : AggregateSpec) →
    (∀ x ∈ a.members, x.IsWhole) → (∃ attributes, a.attributes = .ok attributes) →
    FailsAs source lookup Q a.parts → ∀ {f}, a.resolve source lookup = .error f → Q f
  | ⟨_, members, _, _, _, _⟩, hmembers, ⟨_, rfl⟩, hs, _, h => by
    rcases Except.bind_eq_error.mp h with h | ⟨xs, -, h⟩
    · exact of_resolveMembers_eq_error members hmembers hs h
    · exact absurd h nofun

theorem of_resolveMembers_eq_error : (xs : List MemberSpec) → (∀ x ∈ xs, x.IsWhole) →
    FailsAs source lookup Q (partsOfMembers xs) →
    ∀ {f}, resolveMembers source lookup xs = .error f → Q f
  | [], _, _, _, h => absurd h nofun
  | x :: xs, hxs, hs, _, h => by
    rw [List.forall_mem_cons] at hxs
    rcases Except.bind_eq_error.mp h with h | ⟨y, -, h⟩
    · exact x.of_resolve_eq_error hxs.1 (hs.mono (List.subset_append_left _ _)) h
    rcases Except.bind_eq_error.mp h with h | ⟨ys, -, h⟩
    · exact of_resolveMembers_eq_error xs hxs.2 (hs.mono (List.subset_append_right _ _)) h
    · exact absurd h nofun

theorem MemberSpec.of_resolve_eq_error : (x : MemberSpec) → x.IsWhole →
    FailsAs source lookup Q x.parts → ∀ {f}, x.resolve source lookup = .error f → Q f
  | .member type _ _, ⟨_, rfl⟩, hs, _, h => by
    rcases Except.bind_eq_error.mp h with h | ⟨t, -, h⟩
    · exact type.of_resolve_eq_error hs h
    · exact absurd h nofun
  | .fault _, hx, _, _, _ => hx.elim
end

end Fails

end Resolve

/-! ## References by value -/

/-- The entry `a` refers to the entry `b` by value: a name in its specification, which is not that
of a pointer or of a type that is only declared, stands for `b`. -/
def Refers (entries : List Entry) (a b : String) : Prop :=
  ∃ e ∈ entries, e.name = a ∧ ∃ place spelling, .named place spelling ∈ e.spec.parts ∧
    referenceOf? entries (TypeName.normalize spelling) = some (.entry b)

/-- One step along aliases: from another name for a type to that type, or from the name of an entry
to its specification. -/
inductive Follows (entries : List Entry) : Spec → Spec → Prop
  | alias (target : Spec) : Follows entries (.alias target) target
  | entry {place : Place} {spelling : String} {e : Entry} (mem : e ∈ entries)
      (refers : referenceOf? entries (TypeName.normalize spelling) = some (.entry e.name)) :
      Follows entries (.named place spelling) e.spec

/-- Whether a specification may stand where following aliases from the base of a bitfield leads: a
primitive, the name of a primitive or of a pointer, or another step to follow. -/
def Spec.LeadsToScalar (entries : List Entry) : Spec → Prop
  | .named _ spelling =>
    ∀ t, referenceOf? entries (TypeName.normalize spelling) ≠ some (.incomplete t)
  | .primitive _ | .alias _ => True
  | .aggregate _ | .shaped _ _ | .bitfield _ _ _ | .fault _ => False

/-- Following aliases from the base of a bitfield never reaches anything but a scalar, or goes
around for ever. -/
def ScalarBases (entries : List Entry) : Prop :=
  ∀ e ∈ entries, ∀ place base width, .bitfield place base width ∈ e.spec.parts →
    ∀ s, Relation.ReflTransGen (Follows entries) base s → s.LeadsToScalar entries

/-- A list of names that goes around a cycle: each refers to the next one, and the last is the
first. -/
structure IsCycle (entries : List Entry) (chain : List String) : Prop where
  refers : chain.IsChain (Refers entries)
  closed : chain.head? = chain.getLast?
  length : 2 ≤ chain.length

/-- A name on a cycle refers to itself through others. -/
theorem IsCycle.exists_transGen {entries : List Entry} {chain : List String}
    (h : IsCycle entries chain) : ∃ a, Relation.TransGen (Refers entries) a a := by
  match chain, h with
  | a :: b :: rest, ⟨refers, closed, _⟩ =>
    rw [List.isChain_cons_cons] at refers
    have hlast : (b :: rest).getLast (List.cons_ne_nil b rest) = a := by
      simpa [List.getLast?_eq_some_getLast] using closed.symm
    have hrest := List.relationReflTransGen_of_exists_isChain_cons rest refers.2 hlast
    exact ⟨a, Relation.TransGen.head' refers.1 hrest⟩
  | [_], ⟨_, _, length⟩ => simp at length
  | [], ⟨_, _, length⟩ => simp at length

theorem exists_dropWhile_of_mem {name : String} {xs : List String} (h : name ∈ xs) :
    ∃ rest, xs.dropWhile (· ≠ name) = name :: rest := by
  induction xs with
  | nil => simp at h
  | cons x xs ih =>
    by_cases hx : x = name
    · exact ⟨xs, by simp [hx]⟩
    · obtain ⟨rest, hrest⟩ := ih ((List.mem_cons.mp h).resolve_left (Ne.symm hx))
      exact ⟨rest, by rw [List.dropWhile_cons_of_pos (by simpa using hx), hrest]⟩

/-! ## Resolving along references -/

section Entries

variable {source : String} {entries : List Entry}

theorem referenceOf?_ne_none {text : String} (h : text ≠ "") :
    referenceOf? entries text ≠ none := by
  unfold referenceOf?
  rw [if_neg h]
  split
  · exact nofun
  split
  · exact nofun
  split
  · exact nofun
  split <;> exact nofun

/-- What a spelling refers to by value is an entry. -/
theorem exists_find?_of_referenceOf? {text name : String}
    (h : referenceOf? entries text = some (.entry name)) :
    ∃ e, entries.find? (fun e => e.name == name) = some e := by
  have htag : ∀ kind tag, tagReference entries kind text tag = .entry name →
      ∃ e, entries.find? (fun e => e.name == name) = some e := by
    intro kind tag h
    unfold tagReference at h
    cases he : entries.find? fun e => e.name == tag with
    | none => simp [he] at h
    | some e =>
      simp only [he] at h
      split at h
      · obtain rfl := Reference.entry.inj h
        exact ⟨e, he⟩
      · exact absurd h nofun
  unfold referenceOf? at h
  split at h
  · exact absurd h nofun
  split at h
  · exact absurd (Option.some.inj h) nofun
  split at h
  · exact htag _ _ (Option.some.inj h)
  split at h
  · exact htag _ _ (Option.some.inj h)
  split at h
  · rename_i hany
    obtain rfl := Reference.entry.inj (Option.some.inj h)
    obtain ⟨e, he, hname⟩ := List.any_eq_true.mp hany
    exact Option.isSome_iff_exists.mp (List.find?_isSome.mpr ⟨e, he, hname⟩)
  · exact absurd (Option.some.inj h) nofun

theorem resolveAnew_eq_ok {active : List String} {name : String} {e : Entry} {t : TypeNode}
    (he : entries.find? (fun e => e.name == name) = some e) :
    resolveAnew source entries active name = .ok t ↔ name ∉ active ∧
      e.spec.resolve source
        (lookUp source entries (resolveAnew source entries (name :: active))) = .ok t := by
  by_cases hn : name ∈ active
  · simp [resolveAnew_of_mem hn, hn]
  · simp [resolveAnew_of_find?_eq_some hn he, hn]

theorem lookUp_of_referenceOf? {m : Type → Type} [Monad m] [MonadExcept Failure m]
    {enter : String → m TypeNode} {place : Place} {spelling name : String}
    (h : referenceOf? entries (TypeName.normalize spelling) = some (.entry name)) :
    lookUp source entries enter place spelling = enter name := by
  rw [lookUp, h]

/-- Where following aliases leads to a scalar only, what is resolved is a primitive. -/
theorem exists_primitive_of_resolve (active : List String) : (s : Spec) →
    (∀ s', Relation.ReflTransGen (Follows entries) s s' → s'.LeadsToScalar entries) →
    ∀ {t}, s.resolve source (lookUp source entries (resolveAnew source entries active)) = .ok t →
      ∃ p, t = .primitive p
  | .primitive p, _, _, h => ⟨p, (Except.pure_eq_ok.mp h).symm⟩
  | .alias target, hs, _, h =>
    exists_primitive_of_resolve active target (fun s' hs' => hs s' (.head (.alias target) hs')) h
  | .named place spelling, hs, t, h => by
    change lookUp source entries (resolveAnew source entries active) place spelling = .ok t at h
    unfold lookUp at h
    have hscalar := hs _ .refl
    cases hr : referenceOf? entries (TypeName.normalize spelling) with
    | none =>
      rw [hr] at h
      exact absurd h nofun
    | some r =>
      rw [hr] at h
      cases r with
      | primitive p => exact ⟨_, (Except.pure_eq_ok.mp h).symm⟩
      | incomplete text => exact absurd hr (hscalar text)
      | entry n =>
        obtain ⟨e, he⟩ := exists_find?_of_referenceOf? hr
        obtain ⟨hn, h⟩ := (resolveAnew_eq_ok he).mp h
        have hname : e.name = n := by simpa using List.find?_some he
        have := length_pending_cons_lt hn he
        exact exists_primitive_of_resolve (n :: active) e.spec
          (fun s' hs' => hs s' (.head (.entry (List.mem_of_find?_eq_some he) (hname ▸ hr)) hs')) h
  | .aggregate _, hs, _, _ => (hs _ .refl).elim
  | .shaped _ _, hs, _, _ => (hs _ .refl).elim
  | .bitfield _ _ _, hs, _, _ => (hs _ .refl).elim
  | .fault _, hs, _, _ => (hs _ .refl).elim
termination_by s => ((pending entries active).length, sizeOf s)

/-- An entry that is reached again closes a cycle of the entries on the way to it. -/
theorem isCycle_of_mem {active : List String} {name : String} (h : name ∈ active)
    (hpath : (active.reverse ++ [name]).IsChain (Refers entries)) :
    IsCycle entries (active.reverse.dropWhile (· ≠ name) ++ [name]) := by
  obtain ⟨rest, hrest⟩ := exists_dropWhile_of_mem (List.mem_reverse.mpr h)
  rw [hrest]
  refine ⟨?_, by rw [List.getLast?_concat]; rfl, by simp⟩
  refine hpath.suffix ?_
  rw [← hrest]
  obtain ⟨before, hbefore⟩ := List.dropWhile_suffix (l := active.reverse) (· ≠ name)
  exact ⟨before, by rw [← List.append_assoc, hbefore]⟩

/-- **Resolving fails with a cycle only**, in a document without other faults.  The entries that are
being resolved are the way to the entry. -/
theorem isCycle_of_resolveAnew (hfaultless : ∀ e ∈ entries, e.spec.IsFaultless)
    (hbases : ScalarBases entries) {active : List String} {name : String}
    (hpath : (active.reverse ++ [name]).IsChain (Refers entries)) {f : Failure}
    (h : resolveAnew source entries active name = .error f) :
    ∃ chain last, f = .layout ⟨.containsItself chain, [last]⟩ ∧ IsCycle entries chain ∧
      chain.getLast? = some last := by
  -- Induction on the number of entries that are pending.
  induction hk : (pending entries active).length using Nat.strongRecOn
    generalizing active name f with
  | ind k ih =>
    subst hk
    by_cases hmem : name ∈ active
    · rw [resolveAnew_of_mem hmem] at h
      exact ⟨_, name, (Except.error.inj h).symm, isCycle_of_mem hmem hpath, by simp⟩
    cases he : entries.find? fun e => e.name == name with
    | none =>
      rw [resolveAnew_of_find?_eq_none hmem he] at h
      exact absurd h nofun
    | some e =>
      rw [resolveAnew_of_find?_eq_some hmem he] at h
      have hname : e.name = name := by simpa using List.find?_some he
      have hein := List.mem_of_find?_eq_some he
      refine e.spec.of_resolve_eq_error
        (Q := fun f => ∃ chain last, f = .layout ⟨.containsItself chain, [last]⟩ ∧
          IsCycle entries chain ∧ chain.getLast? = some last) ⟨hfaultless e hein, ?_, ?_⟩ h
      · intro place spelling hs f hf
        unfold lookUp at hf
        cases hr : referenceOf? entries (TypeName.normalize spelling) with
        | none => exact absurd hr (referenceOf?_ne_none (hfaultless e hein _ hs))
        | some r =>
          rw [hr] at hf
          cases r with
          | primitive p => exact absurd hf nofun
          | incomplete t => exact absurd hf nofun
          | entry n =>
            refine ih _ (length_pending_cons_lt hmem he) ?_ hf rfl
            have hlink : Refers entries name n := ⟨e, hein, hname, place, spelling, hs, hr⟩
            rw [List.reverse_cons]
            refine hpath.append (List.isChain_singleton n) ?_
            simpa using hlink
      · intro place base width hs t ht
        exact exists_primitive_of_resolve _ base (hbases e hein place base width hs) ht

/-- Resolving an entry resolves the entries that it refers to, on the way through it. -/
theorem exists_resolveAnew_of_refers (hn : (entries.map Entry.name).Nodup) {active : List String}
    {a b : String} (hab : Refers entries a b) {t : TypeNode}
    (h : resolveAnew source entries active a = .ok t) :
    ∃ t', resolveAnew source entries (a :: active) b = .ok t' := by
  obtain ⟨e, he, rfl, place, spelling, hs, hr⟩ := hab
  have hfind := (find?_eq_some_iff_of_nodup hn).mpr ⟨he, rfl⟩
  obtain ⟨t', ht'⟩ := e.spec.exists_lookup_of_resolve ((resolveAnew_eq_ok hfind).mp h).2 hs
  rw [lookUp_of_referenceOf? hr] at ht'
  exact ⟨t', ht'⟩

/-- **An entry that is resolved lies on no cycle**: the walk would have gone around it. -/
theorem not_transGen_of_resolveAnew (hn : (entries.map Entry.name).Nodup) {active : List String}
    {a : String} {t : TypeNode} (h : resolveAnew source entries active a = .ok t) :
    ¬ Relation.TransGen (Refers entries) a a := by
  have hwalk : ∀ {b}, Relation.TransGen (Refers entries) a b →
      ∃ active' t', a ∈ active' ∧ resolveAnew source entries active' b = .ok t' := by
    intro b hab
    induction hab with
    | single hab =>
      obtain ⟨t', ht'⟩ := exists_resolveAnew_of_refers hn hab h
      exact ⟨_, t', List.mem_cons_self, ht'⟩
    | tail _ hbc ih =>
      obtain ⟨active', t', hmem, ht'⟩ := ih
      obtain ⟨t'', ht''⟩ := exists_resolveAnew_of_refers hn hbc ht'
      exact ⟨_, t'', List.mem_cons_of_mem _ hmem, ht''⟩
  intro haa
  obtain ⟨active', t', hmem, ht'⟩ := hwalk haa
  rw [resolveAnew_of_mem hmem] at ht'
  exact absurd ht' nofun

variable (source) in
/-- The entries of a document without other faults are all resolved when they have no cycle; else
the failure is a cycle. -/
theorem resolveAll_or_isCycle (hn : (entries.map Entry.name).Nodup)
    (hfaultless : ∀ e ∈ entries, e.spec.IsFaultless) (hbases : ScalarBases entries) :
    (∃ types, Document.resolveAll source entries = .ok types ∧
      ¬ ∃ a, Relation.TransGen (Refers entries) a a) ∨
    ∃ chain last, Document.resolveAll source entries =
      .error (.layout ⟨.containsItself chain, [last]⟩) ∧ IsCycle entries chain := by
  rw [resolveAll_eq_mapM]
  cases h : entries.mapM fun e =>
      (resolveAnew source entries [] e.name).map fun node => (e.name, node) with
  | ok types =>
    refine .inl ⟨types, rfl, ?_⟩
    rintro ⟨a, ha⟩
    -- A name on a cycle refers to something, so it is the name of an entry.
    obtain ⟨b, ⟨e, he, rfl, -⟩, -⟩ := Relation.TransGen.head'_iff.mp ha
    obtain ⟨t, -, ht⟩ := Except.exists_of_mem_of_mapM_eq_ok h e he
    obtain ⟨node, hnode, -⟩ := Except.map_eq_ok.mp ht
    exact not_transGen_of_resolveAnew hn hnode ha
  | error f =>
    obtain ⟨e, -, he⟩ := Except.exists_of_mapM_eq_error h
    cases hnode : resolveAnew source entries [] e.name with
    | ok node =>
      rw [hnode] at he
      exact absurd he nofun
    | error f' =>
      rw [hnode] at he
      obtain rfl := Except.error.inj he
      obtain ⟨chain, last, rfl, hchain, -⟩ :=
        isCycle_of_resolveAnew hfaultless hbases (List.isChain_singleton e.name) hnode
      exact .inr ⟨chain, last, rfl, hchain⟩

end Entries

/-! ## Documents -/

namespace Document

variable {source : String} {fields types : Json.Fields} {profile : Option Profile}

/-- **A document without other faults is refused exactly when its types contain themselves.**  The
refusal shows names that go around a cycle; without a cycle every name has a type. -/
theorem ofJson_containsItself (htypes : fields.get? "types" = some (.object types))
    (hunknown : fields.unknown ["profile", "types"] = [])
    (hprofile : profileOf source (fields.get? "profile") = .ok profile) (hn : types.keys.Nodup)
    (hfaultless : ∀ e ∈ entriesOf source types, e.spec.IsFaultless)
    (hbases : ScalarBases (entriesOf source types)) :
    ((∃ chain path, ofJson source (.object fields) =
        .error (.layout ⟨.containsItself chain, path⟩)) ↔
      ∃ a, Relation.TransGen (Refers (entriesOf source types)) a a) ∧
    (∀ chain path, ofJson source (.object fields) =
        .error (.layout ⟨.containsItself chain, path⟩) → IsCycle (entriesOf source types) chain) ∧
    ((¬ ∃ a, Relation.TransGen (Refers (entriesOf source types)) a a) →
      ∃ d, ofJson source (.object fields) = .ok d ∧
        ∀ name ∈ types.keys, ∃ node, d.find? name = some node) := by
  have hnames : ((entriesOf source types).map Entry.name).Nodup := by rwa [name_entriesOf]
  rw [ofJson_of_known htypes hunknown, hprofile]
  rcases resolveAll_or_isCycle source hnames hfaultless hbases with
    ⟨ts, hts, hacyclic⟩ | ⟨chain, last, hts, hchain⟩
  · rw [hts]
    refine ⟨⟨?_, fun h => absurd h hacyclic⟩, ?_, fun _ => ⟨_, rfl, fun name hname => ?_⟩⟩
    · rintro ⟨chain, path, h⟩
      exact absurd h nofun
    · intro chain path h
      exact absurd h nofun
    · rw [← name_entriesOf source, ← map_fst_of_resolveAll hts] at hname
      obtain ⟨t, ht, rfl⟩ := List.mem_map.mp hname
      have hfind : (ts.find? fun t' => t'.1 == t.1).isSome :=
        List.find?_isSome.mpr ⟨t, ht, beq_self_eq_true t.1⟩
      obtain ⟨t', ht'⟩ := Option.isSome_iff_exists.mp hfind
      exact ⟨t'.2, Option.map_eq_some_iff.mpr ⟨t', ht', rfl⟩⟩
  · rw [hts]
    refine ⟨⟨fun _ => hchain.exists_transGen, fun _ => ⟨chain, [last], rfl⟩⟩, ?_, fun h => ?_⟩
    · intro chain' path h
      cases h
      exact hchain
    · exact absurd hchain.exists_transGen h

/-- A marked node that contains the link to the next one, which is again a node and no pointer. -/
def linked : Json.Fields :=
  [("node", .object
      [("kind", .text "struct"),
       ("members", .array
         [.object [("name", .text "next"), ("type", .text "link")],
          .object [("name", .text "mark"), ("type", .text "unsigned"), ("bits", .int 1)]])]),
   ("link", .text "struct node")]

/-- The entries of `linked`. -/
def linkedEntries : List Entry :=
  [⟨"node", .aggregate
      { kind := .struct
        members :=
          [.member (.named ["types", "node", "members[0]", "type"] "link") (some "next")
            (.ok .none),
           .member (.bitfield ["types", "node", "members[1]", "type"]
             (.named ["types", "node", "members[1]", "type"] "unsigned") 1) (some "mark")
             (.ok .none)]
        name := some "node"
        pack := none
        attributes := .ok .none
        place := ["types", "node"] }, some .struct⟩,
   ⟨"link", .named ["types", "link"] "struct node", none⟩]

theorem entriesOf_linked : entriesOf "list.json" linked = linkedEntries := by
  cbv

/-- A node that contains the next node is refused, with names that go around a cycle. -/
theorem ofJson_containsItself_linked :
    ∃ chain path, ofJson "list.json" (.object [("types", .object linked)]) =
        .error (.layout ⟨.containsItself chain, path⟩) ∧
      IsCycle (entriesOf "list.json" linked) chain := by
  have hunsigned : referenceOf? linkedEntries (TypeName.normalize "unsigned") =
      some (.primitive "unsigned") := by decide +kernel
  have hlink : referenceOf? linkedEntries (TypeName.normalize "link") = some (.entry "link") := by
    decide +kernel
  have hnode : referenceOf? linkedEntries (TypeName.normalize "struct node") =
      some (.entry "node") := by decide +kernel
  have hfaultless : ∀ e ∈ entriesOf "list.json" linked, e.spec.IsFaultless := by
    rw [entriesOf_linked]
    have h₁ : TypeName.normalize "link" ≠ "" := by decide
    have h₂ : TypeName.normalize "unsigned" ≠ "" := by decide
    have h₃ : TypeName.normalize "struct node" ≠ "" := by decide
    simp [linkedEntries, Spec.IsFaultless, Spec.parts, AggregateSpec.parts, partsOfMembers,
      MemberSpec.parts, Spec.IsWhole, MemberSpec.IsWhole, h₁, h₂, h₃]
  have hbases : ScalarBases (entriesOf "list.json" linked) := by
    rw [entriesOf_linked]
    intro e he place base width hbase s hs
    obtain rfl : base = .named ["types", "node", "members[1]", "type"] "unsigned" := by
      simp only [linkedEntries, List.mem_cons, List.not_mem_nil, or_false] at he
      rcases he with rfl | rfl
      · have h : place = ["types", "node", "members[1]", "type"] ∧
            base = .named ["types", "node", "members[1]", "type"] "unsigned" ∧ width = 1 := by
          simpa [Spec.parts, AggregateSpec.parts, partsOfMembers, MemberSpec.parts] using hbase
        exact h.2.1
      · simp [Spec.parts] at hbase
    rcases Relation.ReflTransGen.cases_head hs with rfl | ⟨s', hs', -⟩
    · intro t
      simp [hunsigned]
    · cases hs' with
      | entry _ refers => simp [hunsigned] at refers
  have hcycle : Relation.TransGen (Refers (entriesOf "list.json" linked)) "node" "node" := by
    rw [entriesOf_linked]
    have hto : Refers linkedEntries "node" "link" :=
      ⟨_, List.mem_cons_self, rfl, ["types", "node", "members[0]", "type"], "link",
        by simp [Spec.parts, AggregateSpec.parts, partsOfMembers, MemberSpec.parts], hlink⟩
    have hback : Refers linkedEntries "link" "node" :=
      ⟨_, List.mem_cons_of_mem _ List.mem_cons_self, rfl, ["types", "link"], "struct node",
        by simp [Spec.parts], hnode⟩
    exact .tail (.single hto) hback
  have htypes : Json.Fields.get? [("types", .object linked)] "types" = some (.object linked) := rfl
  have hprofile : profileOf "list.json" (Json.Fields.get? [("types", .object linked)] "profile") =
      .ok none := rfl
  obtain ⟨hiff, hchain, -⟩ :=
    ofJson_containsItself htypes (by cbv) hprofile (by decide) hfaultless hbases
  obtain ⟨chain, path, h⟩ := hiff.mpr ⟨"node", hcycle⟩
  exact ⟨chain, path, h, hchain chain path h⟩

end Document

end RecordLayout
