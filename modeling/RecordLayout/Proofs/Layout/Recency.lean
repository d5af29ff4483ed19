import Mathlib
import RecordLayout.Profile.BuiltIn
import RecordLayout.Proofs.Layout.Agreement
import RecordLayout.Proofs.Layout.EngineParts
import RecordLayout.Proofs.Layout.History
import RecordLayout.Proofs.Layout.Lockstep
import RecordLayout.Proofs.Outcome

/-!
# An engine keeps the most recently used layouts

An engine goes in lockstep with the machine that remembers its history.  After any calls, failed ones
included, the entries of the engine are those of the most recently touched keys, the least recently
touched one first, and each has the layout that was stored last under its key.  The two also take
the same notes, so that they find and miss the same keys inside of a computation too.

A layout is looked up twice for each aggregate member, and may be dropped between the two.  Nothing
has to be said about that here: every look-up of the one machine is a look-up of the other.

## Main definitions

* `Engine.Entry.Shows` says that an entry is what a touch of its key left;
* `Engine.Tracks` relates an engine to a history.

## Main results

* `Engine.Tracks.hit`, `Engine.Tracks.store`: the two ways in which a key is touched;
* `Engine.lockstep_serve`: one look-up;
* `Engine.Tracks.after`, `Engine.Tracks.replay`: a call, and a list of them;
* `Engine.keeps_recent`: what an engine keeps.
-/

namespace RecordLayout.Engine

/-- An entry is what a touch left: it has the key that was touched, and what was stored last under
that key. -/
structure Entry.Shows (ts : List Touch) (x : Entry) (t : Touch) : Prop where
  holds : x.holds t.node t.profile = true
  stored : Touch.lastStored t.node t.profile ts = some x.stored

/-- An entry and a touch of its key are found under the same keys. -/
theorem Entry.Shows.holds_eq {ts : List Touch} {x : Entry} {t : Touch} (h : x.Shows ts t)
    (node : TypeNode) (p : Profile) : t.holds node p = x.holds node p := by
  obtain ⟨hprofile, hkey⟩ := holds_iff.mp h.holds
  rw [Touch.holds, Entry.holds, hprofile, TypeNode.sameKey_congr_left hkey]

/-- An engine keeps what a history says: its entries are those of the recent keys. -/
structure Tracks (limit : Option Int) (e : Engine) (h : History) : Prop where
  invariant : e.Invariant limit (Keeps Findable)
  limit : h.limit = limit
  channels : h.channels = e.channels
  issued : h.issued = e.issued
  log : h.log = e.log
  /-- No serial number is used twice. -/
  numbered : (e.entries.map fun x => x.stored.serial).Nodup
  below : ∀ x ∈ e.entries, x.stored.serial < e.issued
  shown : List.Forall₂ (Entry.Shows h.touches) e.entries h.recent.reverse

/-- The last entries within a limit go with the first touches within it. -/
theorem forall₂_withinLimit {R : Entry → Touch → Prop} {entries : List Entry} {ts : List Touch}
    (h : List.Forall₂ R entries ts.reverse) (limit : Option Int) :
    List.Forall₂ R (withinLimit limit entries) (Touch.atMost limit ts).reverse := by
  cases limit with
  | none => exact h
  | some n =>
    rw [withinLimit, Touch.atMost, List.reverse_take, h.length_eq, List.length_reverse]
    exact List.forall₂_drop _ h

variable {limit : Option Int} {e : Engine} {h : History} {node : TypeNode} {p : Profile}

theorem tracks_make (channels : Channels) (limit : Option Int) :
    Tracks limit (make channels limit) (.make channels limit) where
  invariant := invariant_make channels limit
  limit := rfl
  channels := rfl
  issued := rfl
  log := rfl
  numbered := .nil
  below := nofun
  shown := by
    rw [History.recent_eq_nil rfl]
    exact .nil

namespace Tracks

/-- Clearing an engine clears its history. -/
theorem clear (ht : Tracks limit e h) : Tracks limit e.clear h.clear where
  invariant := ht.invariant.clear
  limit := ht.limit
  channels := ht.channels
  issued := ht.issued
  log := ht.log
  numbered := .nil
  below := nofun
  shown := by
    rw [History.recent_eq_nil rfl]
    exact .nil

theorem writeNote (ht : Tracks limit e h) (channel message : String) :
    Tracks limit (e.writeNote channel message) (h.writeNote channel message) := by
  have hinvariant := ht.invariant.writeNote channel message
  revert hinvariant
  unfold Engine.writeNote History.writeNote
  rw [ht.channels]
  cases e.channels.enables channel with
  | false => exact fun _ => ht
  | true =>
    intro hinvariant
    refine ⟨hinvariant, ht.limit, rfl, ht.issued, ?_, ht.numbered, ht.below, ht.shown⟩
    exact congrArg (Array.push · _) ht.log

theorem writeNotes (ht : Tracks limit e h) (channel : String) (messages : List String) :
    Tracks limit (e.writeNotes channel messages) (h.writeNotes channel messages) := by
  unfold Engine.writeNotes History.writeNotes
  induction messages generalizing e h with
  | nil => exact ht
  | cons message messages ih => exact ih (ht.writeNote channel message)

/-! ### Look-ups -/

/-- **The two find the same.** -/
theorem find? (ht : Tracks limit e h) (node : TypeNode) (p : Profile) :
    h.find? node p = (e.find? node p).map Entry.stored := by
  unfold History.find?
  cases hfind : e.find? node p with
  | none =>
    have hany : h.recent.any (Touch.holds node p) = false := by
      rw [List.any_eq_false]
      intro t htm hholds
      obtain ⟨x, hx, hshows⟩ := ht.shown.exists_of_mem_right (List.mem_reverse.mpr htm)
      rw [hshows.holds_eq] at hholds
      exact List.find?_eq_none.mp hfind x hx hholds
    rw [hany]
    rfl
  | some x =>
    obtain ⟨hx, hholds⟩ := mem_of_find? hfind
    obtain ⟨t, htm, hshows⟩ := ht.shown.flip.exists_of_mem_right hx
    have htholds : t.holds node p = true := (hshows.holds_eq node p).trans hholds
    rw [if_pos (List.any_eq_true.mpr ⟨t, List.mem_reverse.mp htm, htholds⟩),
      ← Touch.lastStored_congr htholds]
    exact hshows.stored

/-- No recent touch is of a key that is missed. -/
theorem holds_eq_false (ht : Tracks limit e h) (missed : e.find? node p = none) :
    ∀ t ∈ h.recent, t.holds node p = false := by
  intro t htm
  obtain ⟨x, hx, hshows⟩ := ht.shown.exists_of_mem_right (List.mem_reverse.mpr htm)
  rw [hshows.holds_eq]
  exact Bool.eq_false_iff.mpr (List.find?_eq_none.mp missed x hx)

/-- An entry is taken out by its number; that is to take out its key. -/
theorem touch_entries (ht : Tracks limit e h) {x : Entry} (found : e.find? node p = some x) :
    (e.touch x).entries = e.entries.filter (fun y => !y.holds node p) ++ [x] := by
  obtain ⟨hx, hholds⟩ := mem_of_find? found
  refine congrArg (· ++ [x]) (List.filter_congr fun y hy => ?_)
  rcases ht.invariant.eq_or_apart hy hx with rfl | hapart
  · rw [hholds, bne_self_eq_false]
    rfl
  · have hnot : y.holds node p = false :=
      Bool.eq_false_iff.mpr fun hy => hapart node p ⟨hy, hholds⟩
    have hserial : y.stored.serial ≠ x.stored.serial := by
      intro hsame
      have hyx := List.inj_on_of_nodup_map ht.numbered hy hx hsame
      rw [hyx, hholds] at hnot
      cases hnot
    rw [hnot, bne_iff_ne.mpr hserial]
    rfl

/-- **A look-up that finds its key** touches it. -/
theorem hit (ht : Tracks limit e h) {x : Entry} (found : e.find? node p = some x) :
    Tracks limit (e.touch x) (h.hit node p) where
  invariant := ht.invariant.touch (mem_of_find? found).1
  limit := ht.limit
  channels := ht.channels
  issued := ht.issued
  log := ht.log
  numbered := by
    rw [Engine.touch, List.map_append, List.nodup_append]
    refine ⟨ht.numbered.sublist (List.filter_sublist.map _), List.pairwise_singleton _ _, ?_⟩
    intro n hn m hm
    obtain ⟨y, hy, rfl⟩ := List.mem_map.mp hn
    rw [List.mem_singleton.mp hm]
    exact bne_iff_ne.mp (List.mem_filter.mp hy).2
  below y hy := ht.below y (mem_of_mem_touch (mem_of_find? found).1 hy)
  shown := by
    obtain ⟨hx, hholds⟩ := mem_of_find? found
    obtain ⟨t, htm, hshows⟩ := ht.shown.flip.exists_of_mem_right hx
    have htholds : t.holds node p = true := (hshows.holds_eq node p).trans hholds
    rw [ht.touch_entries found, History.recent_hit (List.mem_reverse.mp htm) htholds,
      List.reverse_cons, ← List.filter_reverse]
    have hkept : List.Forall₂ (Entry.Shows (h.hit node p).touches) e.entries h.recent.reverse :=
      ht.shown.imp fun y u hyu => ⟨hyu.holds, (Touch.lastStored_cons_of_none rfl).trans hyu.stored⟩
    refine List.rel_append (List.rel_filter ?_ hkept) (.cons ⟨hholds, ?_⟩ .nil)
    · intro y u hyu
      dsimp only
      rw [hyu.holds_eq]
    · have hfound : h.find? node p = some x.stored := by rw [ht.find?, found, Option.map_some]
      exact (Touch.lastStored_cons_of_none rfl).trans (History.lastStored_of_find? hfound)

/-- **A layout that is stored** touches its key. -/
theorem store (ht : Tracks limit e h) (missed : e.find? node p = none) {r : LayoutResult}
    (hkeeps : Keeps Findable node p r) (hself : node.sameKey node = true) :
    (h.store node p r).1 = (e.keep node p r).1 ∧
      Tracks limit (e.keep node p r).2 (h.store node p r).2 := by
  have hinvariant := ht.invariant.keep hkeeps
  have hnew := ht.holds_eq_false missed
  unfold keep at hinvariant ⊢
  rw [missed] at hinvariant ⊢
  rw [← ht.issued] at hinvariant ⊢
  refine ⟨rfl, hinvariant, ht.limit, ht.channels, rfl, ht.log, ?_, ?_, ?_⟩
  · refine List.Nodup.sublist ((withinLimit_sublist _ _).map _) ?_
    rw [List.map_append, List.nodup_append]
    refine ⟨ht.numbered, List.pairwise_singleton _ _, ?_⟩
    intro n hn m hm
    obtain ⟨y, hy, rfl⟩ := List.mem_map.mp hn
    rw [List.mem_singleton.mp hm, ht.issued]
    exact Nat.ne_of_lt (ht.below y hy)
  · intro y hy
    rw [ht.issued] at hy ⊢
    rcases List.mem_append.mp ((withinLimit_sublist _ _).mem hy) with hy | hy
    · exact Nat.lt_succ_of_lt (ht.below y hy)
    · rw [List.mem_singleton.mp hy]
      exact Nat.lt_succ_self _
  · rw [History.recent_store hnew, ht.invariant.limit, ht.limit]
    refine forall₂_withinLimit ?_ limit
    rw [List.reverse_cons]
    have hother : ∀ x ∈ e.entries, x.holds node p = false := fun x hx =>
      Bool.eq_false_iff.mpr (List.find?_eq_none.mp missed x hx)
    have hkept : List.Forall₂ (Entry.Shows (h.store node p r).2.touches) e.entries
        h.recent.reverse := by
      refine ((List.forall₂_and_left _ _).mpr ⟨hother, ht.shown⟩).imp ?_
      rintro x t ⟨hx, hshows⟩
      refine ⟨hshows.holds, (Touch.lastStored_cons_of_ne ?_).trans hshows.stored⟩
      rw [Touch.holds_comm, hshows.holds_eq, hx]
    refine List.rel_append hkept (.cons ⟨holds_iff.mpr ⟨rfl, hself⟩, ?_⟩ .nil)
    exact Touch.lastStored_cons_self (Touch.holds_iff.mpr ⟨rfl, hself⟩) rfl

end Tracks

/-! ## Runs -/

section Runs

variable (hlimit : ∀ n ∈ limit, 0 ≤ n)

include hlimit

/-- An engine whose limit is not negative never gives up. -/
theorem Invariant.isOverdrawn_eq_false {P : TypeNode → Profile → LayoutResult → Prop}
    (he : e.Invariant limit P) : e.isOverdrawn = false := by
  rw [isOverdrawn, he.limit, Option.any_eq_false]
  intro n hn
  exact Bool.eq_false_iff.mpr fun hneg => Int.not_lt.mpr (hlimit n hn) (of_decide_eq_true hneg)

/-- **One look-up**: the engine and the history find or miss the same key, and serve the same layout
under the same number. -/
theorem lockstep_serve (node : TypeNode) {compute : HistoryM LayoutResult}
    (hcompute : Lockstep (Tracks limit) Eq (node.measure (setting p) p).compute compute) :
    Lockstep (Tracks limit) Eq (serve p node (node.measure (setting p) p).compute)
      (History.serve p node compute) := by
  intro e h ht
  unfold serve History.serve
  cases hkey : node.isKey with
  | false => exact ⟨.error rfl, ht⟩
  | true =>
    simp only [Bool.not_true, Bool.false_eq_true, if_false, EngineM.run_get_bind, ht.find?]
    cases hfind : e.find? node p with
    | some x => exact ⟨.ok rfl, (ht.hit hfind).writeNote _ _⟩
    | none =>
      simp only [Option.map_none, EngineM.run_bind, EngineM.run_modify]
      have hmiss := ht.writeNote "cache" (lookupNote "miss" node p)
      -- Nothing of the key is kept meanwhile, so that what is computed is also stored.
      have hmissed : (e.writeNote "cache" (lookupNote "miss" node p)).find? node p = none := by
        rw [find?, writeNote_entries]
        exact hfind
      have hstill := find?_compute hmissed
      have hfindable := (hmiss.invariant.compute_findable p node).2
      obtain ⟨hsame, ht'⟩ := hcompute _ _ hmiss
      generalize (node.measure (setting p) p).compute.run _ = out at hstill hfindable hsame ht' ⊢
      generalize compute.run _ = out' at hsame ht' ⊢
      obtain ⟨o, e'⟩ := out
      obtain ⟨o', h'⟩ := out'
      dsimp only at hstill hfindable hsame ht'
      obtain rfl := Except.rel_eq.mp hsame
      cases o' with
      | error failure => exact ⟨.error rfl, ht'⟩
      | ok r =>
        obtain ⟨hkeeps, hself⟩ := hfindable r rfl
        obtain ⟨hstored, htracks⟩ := ht'.store hstill hkeeps hself
        simp only [EngineM.run_modifyGet, EngineM.run_get,
          htracks.invariant.isOverdrawn_eq_false hlimit]
        exact ⟨.ok hstored.symm, htracks⟩

/-- The settings of an engine and of a history are coupled. -/
def historyCoupling (p : Profile) :
    Coupling (setting p) (History.setting p) (.refl p) Eq where
  Relates := Lockstep (Tracks limit)
  of_pure := .pure
  bind := .bind
  fail := .throw
  within _ hx := hx.adapt _
  note messages := .modify fun _ _ ht => ht.writeNotes _ messages
  fetch {a b} same hx := by
    subst same
    have hcompute := hx.imp fun _ _ hr => (Comparison.layouts_same.mp hr).symm
    refine (lockstep_serve hlimit (.aggregate a) hcompute).bind fun stored _ hs => .pure ?_
    exact hs ▸ Comparison.layouts_same.mpr rfl

/-- **A layout**: the engine and the history come to the same. -/
theorem lockstep_serveRoot (p : Profile) (node : TypeNode) :
    Lockstep (Tracks limit) Eq (serveRoot p node) (History.serveRoot p node) := by
  have hnode : (historyCoupling hlimit p).Measures node node :=
    Coupling.measures_self (C := .refl p) (fun _ => rfl) hereditary_true (fun _ _ => rfl)
      (node.isMeasuredAlike_self p) trivial
  have hcompute := hnode.compute.imp fun _ _ hr => (Comparison.layouts_same.mp hr).symm
  exact (lockstep_serve hlimit node hcompute).adapt _

/-- A call, whether it succeeds or not. -/
theorem Tracks.after (ht : Tracks limit e h) (c : Call) : Tracks limit (e.after c) (h.after c) := by
  cases c with
  | clear => exact ht.clear
  | layout p node =>
    have hlayout := (lockstep_serveRoot hlimit p node).bind (P := Eq) fun _ _ hs =>
      .pure (congrArg Stored.result hs)
    exact (hlayout e h ht).2

/-- **A list of calls.** -/
theorem Tracks.replay (ht : Tracks limit e h) (calls : List Call) :
    Tracks limit (e.replay calls) (h.replay calls) := by
  unfold Engine.replay History.replay
  induction calls generalizing e h with
  | nil => exact ht
  | cons c calls ih => exact ih (ht.after hlimit c)

/-- **An engine keeps the most recently used layouts.**  After any calls its entries are those of the
most recently touched keys, as many as the limit allows, the least recently touched first, each with
what was stored last under its key.  It has found and missed the same keys as the history, and it
answers the next call as that does. -/
theorem keeps_recent (channels : Channels) (calls : List Call) :
    let e := (make channels limit).replay calls
    let h := (History.make channels limit).replay calls
    List.Forall₂ (Entry.Shows h.touches) e.entries h.recent.reverse ∧
      e.issued = h.issued ∧ e.log = h.log ∧
      ∀ p node, (e.find? node p).map Entry.stored = h.find? node p ∧
        ((serveRoot p node).run e).1 = ((History.serveRoot p node).run h).1 := by
  intro e h
  have ht : Tracks limit e h := (tracks_make channels limit).replay hlimit calls
  refine ⟨ht.shown, ht.issued.symm, ht.log.symm, fun p node => ⟨(ht.find? node p).symm, ?_⟩⟩
  exact (Except.rel_eq.mp (lockstep_serveRoot hlimit p node e h ht).1).symm

end Runs

/-- A coin has a value. -/
def coin : Aggregate where
  kind := .struct
  members := [⟨.primitive ⟨"int", some (.int 4), none⟩, some "value", .none⟩]
  name := some "coin"
  pack := none
  attributes := .none
  origin := .written ["coin"]

/-- A purse has a coin. -/
def purse : Aggregate where
  kind := .struct
  members :=
    [⟨.primitive ⟨"char", some (.int 1), none⟩, some "count", .none⟩,
     ⟨.aggregate coin, some "first", .none⟩]
  name := some "purse"
  pack := none
  attributes := .none
  origin := .written ["purse"]

/-- A till has a coin and a purse, and a lock that is only declared. -/
def till : Aggregate where
  kind := .struct
  members :=
    [⟨.aggregate coin, some "spare", .none⟩,
     ⟨.aggregate purse, some "purse", .none⟩,
     ⟨.incomplete (.name "lock"), some "lock", .none⟩]
  name := some "till"
  pack := none
  attributes := .none
  origin := .written ["till"]

/-- A till cannot be laid out, but what is in it can. -/
def dealings : List Call :=
  [.layout .lp64 (.aggregate purse), .layout .ilp32 (.aggregate coin), .clear,
    .layout .lp64 (.aggregate till), .layout .lp64 (.aggregate coin)]

/-- An engine that keeps two layouts fails for a till, and keeps those of the purse and the coin in
it.  The coin is asked for after that, so the purse is the one to go next. -/
theorem keeps_recent_till :
    List.Forall₂ (Entry.Shows ((History.make ["cache"] (some 2)).replay dealings).touches)
        ((make ["cache"] (some 2)).replay dealings).entries
        ((History.make ["cache"] (some 2)).replay dealings).recent.reverse ∧
      ((make ["cache"] (some 2)).replay dealings).entries.map
          (fun x => (x.node.describe, x.stored.serial)) =
        [("struct purse", 4), ("struct coin", 3)] := by
  have hlimit : ∀ n ∈ some (2 : Int), 0 ≤ n := by decide
  obtain ⟨hshown, -, -, -⟩ := keeps_recent hlimit ["cache"] dealings
  refine ⟨hshown, ?_⟩
  cbv

end RecordLayout.Engine
