import RecordLayout.Layout.Engine
import RecordLayout.Proofs.TypeTree.Key

/-!
# Runs of the caching engine

What a look-up does to an engine, and the invariant of all engines that are ever reached: what they
keep satisfies some property `P` of types, profiles and layouts, no two entries are looked up under
the same key, and there are no more entries than the limit allows.

A look-up may find its entry, or miss it and compute.  After a miss the entry may be there all the
same, since the computation runs on the same engine; the layout kept first is then the one served.

## Main definitions

* `Engine.Looks` is what a look-up can do;
* `Engine.Invariant` is the invariant;
* `Engine.Call` is a call that a program makes, and `Engine.replay` runs a list of them.

## Main results

* `Engine.looks_serve`: what a look-up does;
* `Engine.Invariant.touch`, `Engine.Invariant.keep`: the two ways in which entries change keep the
  invariant.
-/

namespace RecordLayout

/-! ## Runs -/

namespace EngineM

-- The state is that of an engine, or of a machine that an engine is compared to.
variable {σ α β : Type}

theorem run_bind (x : ExceptT Failure (StateM σ) α) (f : α → ExceptT Failure (StateM σ) β) (s : σ) :
    (x >>= f).run s =
      match x.run s with
      | (.ok a, s') => (f a).run s'
      | (.error g, s') => (.error g, s') := by
  change (match (x.run s : Except Failure α × σ) with
    | (o, s') => ExceptT.bindCont f o s') = _
  rcases x.run s with ⟨o | o, s'⟩ <;> rfl

@[simp] theorem run_get (s : σ) : (get : ExceptT Failure (StateM σ) σ).run s = (.ok s, s) := rfl

theorem run_get_bind (f : σ → ExceptT Failure (StateM σ) α) (s : σ) :
    (get >>= f).run s = (f s).run s := rfl

@[simp] theorem run_modify (f : σ → σ) (s : σ) :
    (modify f : ExceptT Failure (StateM σ) Unit).run s = (.ok (), f s) := rfl

@[simp] theorem run_modifyGet (f : σ → α × σ) (s : σ) :
    (modifyGet f : ExceptT Failure (StateM σ) α).run s = (.ok (f s).1, (f s).2) := rfl

theorem run_adapt (g : Failure → Failure) (x : ExceptT Failure (StateM σ) α) (s : σ) :
    (ExceptT.adapt g x).run s = ((x.run s).1.mapError g, (x.run s).2) := rfl

end EngineM

namespace Engine

/-- What a look-up can do, as a relation to its outcome and the engine after it. -/
inductive Looks (p : Profile) (node : TypeNode) (compute : EngineM LayoutResult) (e : Engine) :
    Except Failure Stored × Engine → Prop
  | refused (key : node.isKey = false) : Looks p node compute e (.error .compositeKey, e)
  | hit {x : Entry} (found : e.find? node p = some x) :
      Looks p node compute e
        (.ok x.stored, (e.touch x).writeNote "cache" (lookupNote "hit" node p))
  /-- A failure leaves what the computation has kept. -/
  | failed {f : Failure} {e' : Engine} (key : node.isKey = true) (missed : e.find? node p = none)
      (run : compute.run (e.writeNote "cache" (lookupNote "miss" node p)) = (.error f, e')) :
      Looks p node compute e (.error f, e')
  | overdrawn {r : LayoutResult} {e' : Engine} (key : node.isKey = true)
      (missed : e.find? node p = none)
      (run : compute.run (e.writeNote "cache" (lookupNote "miss" node p)) = (.ok r, e'))
      (overdrawn : (e'.keep node p r).2.isOverdrawn = true) :
      Looks p node compute e (.error .exhaustedStore, (e'.keep node p r).2)
  | kept {r : LayoutResult} {e' : Engine} (key : node.isKey = true)
      (missed : e.find? node p = none)
      (run : compute.run (e.writeNote "cache" (lookupNote "miss" node p)) = (.ok r, e'))
      (drawn : (e'.keep node p r).2.isOverdrawn = false) :
      Looks p node compute e (.ok (e'.keep node p r).1, (e'.keep node p r).2)

/-- **A look-up does one of these things.** -/
theorem looks_serve (p : Profile) (node : TypeNode) (compute : EngineM LayoutResult) (e : Engine) :
    Looks p node compute e ((serve p node compute).run e) := by
  unfold serve
  cases hkey : node.isKey with
  | false => exact .refused hkey
  | true =>
    simp only [Bool.not_true, Bool.false_eq_true, if_false, EngineM.run_bind, EngineM.run_get]
    cases hfind : e.find? node p with
    | some x => exact .hit hfind
    | none =>
      simp only [EngineM.run_bind, EngineM.run_modify]
      cases hrun : compute.run (e.writeNote "cache" (lookupNote "miss" node p)) with
      | mk outcome e' =>
        cases outcome with
        | error f => exact .failed hkey hfind hrun
        | ok r =>
          simp only [EngineM.run_modifyGet, EngineM.run_get]
          cases hover : (e'.keep node p r).2.isOverdrawn with
          | true => exact .overdrawn hkey hfind hrun hover
          | false => exact .kept hkey hfind hrun hover

/-- A note changes nothing but the log. -/
theorem writeNote_eq (e : Engine) (channel message : String) :
    ∃ log, e.writeNote channel message = { e with log } := by
  unfold writeNote
  split
  · exact ⟨_, rfl⟩
  · exact ⟨_, rfl⟩

@[simp] theorem writeNote_entries (e : Engine) (channel message : String) :
    (e.writeNote channel message).entries = e.entries := by
  obtain ⟨log, hlog⟩ := e.writeNote_eq channel message
  rw [hlog]

@[simp] theorem writeNotes_entries (e : Engine) (channel : String) (messages : List String) :
    (e.writeNotes channel messages).entries = e.entries := by
  unfold writeNotes
  induction messages generalizing e with
  | nil => rfl
  | cons message messages ih => rw [List.foldl_cons, ih, writeNote_entries]

/-- A limit drops entries and changes none. -/
theorem withinLimit_sublist (limit : Option Int) (entries : List Entry) :
    (withinLimit limit entries).Sublist entries := by
  cases limit with
  | none => exact .refl entries
  | some n => exact List.drop_sublist _ _

theorem withinLimit_map (f : Entry → Entry) (limit : Option Int) (entries : List Entry) :
    withinLimit limit (entries.map f) = (withinLimit limit entries).map f := by
  cases limit with
  | none => rfl
  | some n => rw [withinLimit, withinLimit, List.length_map, List.map_drop]

/-- What keeping a layout leaves: an entry of the key, used last, that was there or is new. -/
inductive Keeping (e : Engine) (node : TypeNode) (p : Profile) (r : LayoutResult) (x : Entry) : Prop
  | found (found : e.find? node p = some x)
  | new (new : x = ⟨node, p, r, e.issued⟩)

/-- **The layout that is kept** is that of the entry used last. -/
theorem exists_keep (e : Engine) (node : TypeNode) (p : Profile) (r : LayoutResult) :
    ∃ init x, e.Keeping node p r x ∧ (e.keep node p r).1 = x.stored ∧
      (e.keep node p r).2.entries = withinLimit e.limit (init ++ [x]) := by
  unfold keep
  cases hfind : e.find? node p with
  | some x => exact ⟨_, x, .found hfind, rfl, rfl⟩
  | none => exact ⟨_, _, .new rfl, rfl, rfl⟩

/-- A layout that is fetched is looked up. -/
theorem run_fetch (p : Profile) (node : TypeNode) (compute : EngineM LayoutResult) (e : Engine) :
    ((setting p).fetch node compute).run e =
      (((serve p node compute).run e).1.map Stored.result, ((serve p node compute).run e).2) := by
  change (serve p node compute >>= fun stored => pure stored.result).run e = _
  rw [EngineM.run_bind]
  rcases (serve p node compute).run e with ⟨f | stored, e'⟩ <;> rfl

/-- A name on the path of a failure changes nothing else. -/
theorem run_within {α : Type} (p : Profile) (name : String) (x : EngineM α) (e : Engine) :
    ((setting p).within name x).run e = (Failure.within name (x.run e).1, (x.run e).2) := by
  change (ExceptT.adapt (Failure.push name) x).run e = _
  rw [EngineM.run_adapt]
  rcases x.run e with ⟨f | a, e'⟩ <;> rfl

/-! ## The invariant -/

/-- Two entries that no look-up can take for one another. -/
def Entry.Apart (x y : Entry) : Prop :=
  ∀ node p, ¬ (x.holds node p = true ∧ y.holds node p = true)

theorem Entry.Apart.symm {x y : Entry} (h : x.Apart y) : y.Apart x :=
  fun node p hxy => h node p ⟨hxy.2, hxy.1⟩

/-- The invariant of engines with a limit: `P` holds of all that is kept, every key has one entry at
most, and there are no more entries than the limit allows. -/
structure Invariant (limit : Option Int) (P : TypeNode → Profile → LayoutResult → Prop)
    (e : Engine) : Prop where
  limit : e.limit = limit
  kept : ∀ x ∈ e.entries, P x.node x.profile x.stored.result
  distinct : e.entries.Pairwise Entry.Apart
  bounded : ∀ n, e.limit = some n → e.entries.length ≤ n.toNat

section Invariant

variable {limit : Option Int} {P : TypeNode → Profile → LayoutResult → Prop} {e : Engine}
  {node : TypeNode} {p : Profile} {r : LayoutResult} {x : Entry}

theorem holds_iff : x.holds node p = true ↔ x.profile = p ∧ x.node.sameKey node = true := by
  simp [Entry.holds]

/-- What a look-up finds is kept, under a type that is the same key. -/
theorem mem_of_find? (h : e.find? node p = some x) : x ∈ e.entries ∧ x.holds node p = true :=
  ⟨List.mem_of_find?_eq_some h, List.find?_some h⟩

theorem invariant_make (channels : Channels) (limit : Option Int) :
    (make channels limit).Invariant limit P where
  limit := rfl
  kept := by simp [make]
  distinct := .nil
  bounded _ _ := Nat.zero_le _

namespace Invariant

theorem clear (h : e.Invariant limit P) : e.clear.Invariant limit P where
  limit := h.limit
  kept := by simp [Engine.clear]
  distinct := .nil
  bounded _ _ := Nat.zero_le _

theorem writeNote (h : e.Invariant limit P) (channel message : String) :
    (e.writeNote channel message).Invariant limit P := by
  unfold Engine.writeNote
  split
  · exact ⟨h.limit, h.kept, h.distinct, h.bounded⟩
  · exact h

theorem writeNotes (h : e.Invariant limit P) (channel : String) (messages : List String) :
    (e.writeNotes channel messages).Invariant limit P := by
  unfold Engine.writeNotes
  induction messages generalizing e with
  | nil => exact h
  | cons message messages ih => exact ih (h.writeNote channel message)

/-- No two entries are of one key. -/
theorem eq_or_apart (h : e.Invariant limit P) {y : Entry} (hy : y ∈ e.entries)
    (hx : x ∈ e.entries) : y = x ∨ y.Apart x := by
  refine List.Pairwise.forall_of_forall_of_flip (R := fun y z => y = z ∨ y.Apart z)
    (fun _ _ => .inl rfl) ?_ ?_ hy hx
  · exact h.distinct.imp .inr
  · exact h.distinct.imp fun h => .inr h.symm

/-- Using an entry moves it to the end. -/
theorem touch (h : e.Invariant limit P) (hx : x ∈ e.entries) :
    (e.touch x).Invariant limit P where
  limit := h.limit
  kept := by
    rw [Engine.touch, List.forall_mem_append, List.forall_mem_singleton]
    constructor
    · intro y hy
      exact h.kept y (List.mem_filter.mp hy).1
    · exact h.kept x hx
  distinct := by
    rw [Engine.touch, List.pairwise_append]
    refine ⟨h.distinct.sublist List.filter_sublist, by simp, ?_⟩
    intro y hy z hz
    obtain rfl : z = x := by simpa using hz
    obtain ⟨hy, hserial⟩ := List.mem_filter.mp hy
    have hapart := h.eq_or_apart hy hx
    rcases hapart with rfl | hapart
    · simp at hserial
    · exact hapart
  bounded := by
    intro n hn
    refine Nat.le_trans ?_ (h.bounded n hn)
    have hlt : (e.entries.filter fun y => y.stored.serial != x.stored.serial).length <
        e.entries.length := by
      rw [List.length_filter_lt_length_iff_exists]
      exact ⟨x, hx, by simp⟩
    rw [Engine.touch, List.length_append]
    exact hlt

/-- A limit drops entries. -/
theorem withinLimit {entries : List Entry} (hlimit : e.limit = limit)
    (hkept : ∀ x ∈ entries, P x.node x.profile x.stored.result)
    (hdistinct : entries.Pairwise Entry.Apart) (issued : Nat) :
    { e with
      entries := Engine.withinLimit e.limit entries
      issued := issued }.Invariant limit P := by
  cases hl : e.limit with
  | none =>
    refine ⟨hl ▸ hlimit, hkept, hdistinct, ?_⟩
    rintro n ⟨⟩
  | some n =>
    have hsub := withinLimit_sublist (some n) entries
    refine ⟨hl ▸ hlimit, fun x hx => hkept x (hsub.mem hx), hdistinct.sublist hsub, ?_⟩
    rintro m ⟨⟩
    simp only [Engine.withinLimit, List.length_drop]
    omega

/-- **Keeping a layout keeps the invariant**, and it is the layout kept or one that is there under
the same key. -/
theorem keep (h : e.Invariant limit P) (hr : P node p r) :
    (e.keep node p r).2.Invariant limit P := by
  unfold Engine.keep
  -- The computation may have kept a layout under the same key, which is then used again.
  cases hfind : e.find? node p with
  | some x =>
    have htouch := h.touch (mem_of_find? hfind).1
    exact withinLimit h.limit htouch.kept htouch.distinct e.issued
  | none =>
    refine withinLimit h.limit ?_ ?_ _
    · rw [List.forall_mem_append, List.forall_mem_singleton]
      exact ⟨h.kept, hr⟩
    · rw [List.pairwise_append]
      refine ⟨h.distinct, by simp, ?_⟩
      intro y hy z hz n q hboth
      obtain rfl := List.mem_singleton.mp hz
      simp only [holds_iff] at hboth
      obtain ⟨⟨rfl, hyn⟩, rfl, hn⟩ := hboth
      -- An entry that answers to one key with the new one would have been found.
      have hnot := List.find?_eq_none.mp hfind y hy
      exact hnot (holds_iff.mpr ⟨rfl, TypeNode.sameKey_of_sameKey n y.node node hyn hn⟩)

theorem entries_eq_nil (h : e.Invariant (some 0) P) : e.entries = [] :=
  List.eq_nil_of_length_eq_zero (Nat.le_zero.mp (h.bounded 0 h.limit))

end Invariant

end Invariant

/-! ## Histories -/

/-- A call that a program makes. -/
inductive Call where
  | clear
  | layout (p : Profile) (node : TypeNode)

/-- The engine after a call, whether it succeeds or not. -/
def after (e : Engine) : Call → Engine
  | .clear => e.clear
  | .layout p node => ((layout p node).run e).2

/-- The engine after a list of calls. -/
def replay (e : Engine) (calls : List Call) : Engine := calls.foldl after e

/-- **Induction on histories**: what the calls keep holds after all of them. -/
theorem replay_induction {motive : Engine → Prop} {e : Engine} {calls : List Call} (h : motive e)
    (step : ∀ e, ∀ c ∈ calls, motive e → motive (e.after c)) : motive (e.replay calls) := by
  unfold replay
  induction calls generalizing e with
  | nil => exact h
  | cons c calls ih =>
    refine ih (step e c List.mem_cons_self h) fun e' c' hc' => ?_
    exact step e' c' (List.mem_cons_of_mem c hc')

/-- The outcome of a layout by way of an engine. -/
theorem run_layout (p : Profile) (node : TypeNode) (e : Engine) :
    (layout p node).run e =
      let looked := (serve p node (node.measure (setting p) p).compute).run e
      (Failure.within node.rootName (looked.1.map Stored.result), looked.2) := by
  unfold layout serveRoot
  rw [EngineM.run_bind, EngineM.run_adapt]
  rcases (serve p node (node.measure (setting p) p).compute).run e with ⟨f | stored, e'⟩ <;> rfl

end Engine

end RecordLayout
