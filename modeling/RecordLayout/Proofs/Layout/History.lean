import Mathlib.Data.List.Basic
import RecordLayout.Proofs.Layout.EngineRun

/-!
# A store that remembers what was touched

The machine of this module lays out types as an engine does, but it keeps no entries, moves none and
drops none.  All that it has is a history: which keys have been touched since it was last cleared,
and what was stored under them.  It answers a look-up out of that history.  A key is found when it is
one of the most recently touched keys, of which there are as many as the limit allows, and what is
found is what was stored last under it.

So this is the store that an engine ought to be when it is said to keep the most recently used of
its layouts.

## Main definitions

* `Touch` is one step of a history, and `Touch.latest` are the last touches of all keys;
* `History` is the machine, and `History.recent` are the touches of the keys that it knows;
* `History.find?` is a look-up, `History.serve` the use of one by a layout;
* `History.replay` runs a list of calls.

## Main results

* `Touch.pairwise_latest`: every key has one last touch;
* `History.recent_hit`, `History.recent_store`: how the keys that are known change.
-/

namespace RecordLayout

/-! ## Touches -/

/-- A key is touched when a look-up finds it, and when a layout is stored under it. -/
structure Touch where
  node : TypeNode
  profile : Profile
  /-- The layout that is stored, unless the key was found. -/
  stored : Option Stored

namespace Touch

/-- Whether a touch is one of the key of a type under a profile. -/
def holds (node : TypeNode) (p : Profile) (t : Touch) : Bool :=
  t.profile == p && t.node.sameKey node

/-- The last touches of all keys.  The touches are given, and returned, with the latest one first. -/
def latest : List Touch → List Touch
  | [] => []
  | t :: ts => t :: (latest ts).filter fun u => !u.holds t.node t.profile

/-- What was stored last under a key. -/
def lastStored (node : TypeNode) (p : Profile) (ts : List Touch) : Option Stored :=
  (ts.filter (holds node p)).findSome? stored

variable {node : TypeNode} {p : Profile} {t u : Touch} {ts : List Touch}

theorem holds_iff : t.holds node p = true ↔ t.profile = p ∧ t.node.sameKey node = true := by
  simp [holds]

/-- A touch of a key is one of all keys that are the same. -/
theorem holds_congr (h : t.holds node p = true) (u : Touch) :
    u.holds t.node t.profile = u.holds node p := by
  obtain ⟨rfl, hkey⟩ := holds_iff.mp h
  rw [holds, holds, TypeNode.sameKey_congr hkey]

theorem holds_comm (t u : Touch) : t.holds u.node u.profile = u.holds t.node t.profile := by
  rw [holds, holds, Bool.beq_comm, TypeNode.sameKey_comm]

/-- **Every key has one last touch.** -/
theorem pairwise_latest (ts : List Touch) :
    (latest ts).Pairwise fun t u => u.holds t.node t.profile = false := by
  induction ts with
  | nil => exact .nil
  | cons t ts ih =>
    rw [latest, List.pairwise_cons]
    refine ⟨fun u hu => ?_, ih.filter _⟩
    exact (Bool.not_eq_eq_eq_not ..).mp (List.mem_filter.mp hu).2

/-! ### What was stored last -/

theorem lastStored_congr (h : t.holds node p = true) (ts : List Touch) :
    lastStored t.node t.profile ts = lastStored node p ts := by
  have hholds : holds t.node t.profile = holds node p := funext (holds_congr h)
  rw [lastStored, hholds, lastStored]

/-- A touch that stores nothing leaves what was stored. -/
theorem lastStored_cons_of_none (h : t.stored = none) :
    lastStored node p (t :: ts) = lastStored node p ts := by
  unfold lastStored
  cases hholds : t.holds node p with
  | true => rw [List.filter_cons_of_pos hholds, List.findSome?_cons, h]
  | false => rw [List.filter_cons_of_neg (by simp [hholds])]

/-- So does one of another key. -/
theorem lastStored_cons_of_ne (h : t.holds node p = false) :
    lastStored node p (t :: ts) = lastStored node p ts := by
  unfold lastStored
  rw [List.filter_cons_of_neg (by simp [h])]

theorem lastStored_cons_self {s : Stored} (h : t.holds node p = true) (hstored : t.stored = some s) :
    lastStored node p (t :: ts) = some s := by
  unfold lastStored
  rw [List.filter_cons_of_pos h, List.findSome?_cons, hstored]

/-! ### The most recent ones -/

/-- The first touches of a list, as many as a limit allows. -/
def atMost (limit : Option Int) (ts : List Touch) : List Touch :=
  match limit with
  | none => ts
  | some n => ts.take n.toNat

/-- Of touches of different keys only one is of a given key. -/
theorem holds_eq_false_of_pairwise
    (h : (t :: ts).Pairwise fun t u => u.holds t.node t.profile = false)
    (ht : t.holds node p = true) (hu : u ∈ ts) : u.holds node p = false := by
  rw [← holds_congr ht]
  exact (List.pairwise_cons.mp h).1 u hu

/-- When a key is among the first, taking it out makes room for no other one: a touch of it is put in
its place. -/
theorem take_filter_of_mem {n : Nat}
    (h : ts.Pairwise fun t u => u.holds t.node t.profile = false)
    (ht : t ∈ ts.take (n + 1)) (hholds : t.holds node p = true) :
    (ts.filter fun u => !u.holds node p).take n =
      (ts.take (n + 1)).filter fun u => !u.holds node p := by
  induction ts generalizing n with
  | nil => cases ht
  | cons u us ih =>
    rw [List.take_succ_cons] at ht ⊢
    cases hu : u.holds node p with
    | true =>
      have hrest : ∀ v ∈ us, (!v.holds node p) = true := fun v hv => by
        rw [holds_eq_false_of_pairwise h hu hv]
        rfl
      rw [List.filter_cons_of_neg (by simp [hu]), List.filter_cons_of_neg (by simp [hu]),
        List.filter_eq_self.mpr hrest,
        List.filter_eq_self.mpr fun v hv => hrest v (List.mem_of_mem_take hv)]
    | false =>
      -- The touch of the key is further on, so that there is room for one more.
      have htail : t ∈ us.take n := by
        rcases List.mem_cons.mp ht with rfl | ht
        · rw [hu] at hholds
          cases hholds
        · exact ht
      obtain ⟨m, rfl⟩ : ∃ m, n = m + 1 := by
        cases n with
        | zero => cases htail
        | succ m => exact ⟨m, rfl⟩
      rw [List.filter_cons_of_pos (by simp [hu]), List.filter_cons_of_pos (by simp [hu]),
        List.take_succ_cons, ih (List.pairwise_cons.mp h).2 htail]

/-- When a key is not among the first, taking it out changes none of them. -/
theorem take_filter_of_forall {n : Nat} (h : ∀ u ∈ ts.take n, u.holds node p = false) :
    (ts.filter fun u => !u.holds node p).take n = ts.take n := by
  induction ts generalizing n with
  | nil => rw [List.filter_nil]
  | cons u us ih =>
    cases n with
    | zero => rfl
    | succ n =>
      rw [List.take_succ_cons] at h ⊢
      obtain ⟨hu, hus⟩ := List.forall_mem_cons.mp h
      rw [List.filter_cons_of_pos (by simp [hu]), List.take_succ_cons, ih hus]

/-- **Touching one of the most recent keys** moves it to the front. -/
theorem atMost_latest_of_mem {limit : Option Int} (ht : t ∈ atMost limit (latest ts))
    (hholds : t.holds node p = true) (stored : Option Stored) :
    atMost limit (latest (⟨node, p, stored⟩ :: ts)) =
      ⟨node, p, stored⟩ :: (atMost limit (latest ts)).filter fun u => !u.holds node p := by
  cases limit with
  | none => rfl
  | some n =>
    unfold atMost at ht ⊢
    dsimp only at ht ⊢
    cases hn : n.toNat with
    | zero =>
      rw [hn] at ht
      cases ht
    | succ m =>
      rw [hn] at ht
      rw [latest, List.take_succ_cons, take_filter_of_mem (pairwise_latest ts) ht hholds]

/-- **Touching any other key** puts it in front, and there may be no room for the last one. -/
theorem atMost_latest_of_forall {limit : Option Int}
    (h : ∀ u ∈ atMost limit (latest ts), u.holds node p = false) (stored : Option Stored) :
    atMost limit (latest (⟨node, p, stored⟩ :: ts)) =
      atMost limit (⟨node, p, stored⟩ :: atMost limit (latest ts)) := by
  cases limit with
  | none =>
    have hall : ∀ u ∈ latest ts, (!u.holds node p) = true := fun u hu => by
      rw [h u hu]
      rfl
    change _ :: List.filter _ _ = _
    rw [List.filter_eq_self.mpr hall]
    rfl
  | some n =>
    unfold atMost at h ⊢
    dsimp only at h ⊢
    cases hn : n.toNat with
    | zero => rfl
    | succ m =>
      rw [hn] at h
      have hfirst : ∀ u ∈ (latest ts).take m, u.holds node p = false := fun u hu =>
        h u ((List.take_subset_take_left _ (Nat.le_succ m)) hu)
      rw [latest, List.take_succ_cons, List.take_succ_cons, take_filter_of_forall hfirst,
        List.take_take, Nat.min_eq_left (Nat.le_succ m)]

end Touch

/-! ## The machine -/

/-- The state of the machine. -/
structure History where
  /-- The greatest number of keys to know, if there is one. -/
  limit : Option Int
  /-- The channels that are asked for. -/
  channels : Channels
  /-- The touches since the machine was cleared, the latest one first. -/
  touches : List Touch
  /-- The number of layouts stored so far, which is the next serial number. -/
  issued : Nat
  /-- The notes written so far. -/
  log : Array String

/-- Computations that use the machine. -/
abbrev HistoryM := ExceptT Failure (StateM History)

namespace History

/-- A machine that has been asked for nothing yet. -/
def make (channels : Channels) (limit : Option Int) : History := ⟨limit, channels, [], 0, #[]⟩

/-- The machine without its touches. -/
def clear (h : History) : History := { h with touches := [] }

/-- The last touches of the most recently touched keys, as many as the limit allows, with the latest
one first. -/
def recent (h : History) : List Touch := Touch.atMost h.limit (Touch.latest h.touches)

/-- What is found under a key: what was stored last, if the key is a recent one. -/
def find? (h : History) (node : TypeNode) (p : Profile) : Option Stored :=
  if h.recent.any (Touch.holds node p) then Touch.lastStored node p h.touches else none

/-- The machine after a look-up that found its key. -/
def hit (h : History) (node : TypeNode) (p : Profile) : History :=
  { h with touches := ⟨node, p, none⟩ :: h.touches }

/-- The machine after storing a layout, with the layout that is stored. -/
def store (h : History) (node : TypeNode) (p : Profile) (result : LayoutResult) :
    Stored × History :=
  let stored : Stored := ⟨result, h.issued⟩
  (stored, { h with touches := ⟨node, p, some stored⟩ :: h.touches, issued := h.issued + 1 })

/-- The machine after writing a note to a channel, if that is asked for. -/
def writeNote (h : History) (channel message : String) : History :=
  if h.channels.enables channel then { h with log := h.log.push (Channels.line channel message) }
  else h

/-- The machine after writing notes to a channel. -/
def writeNotes (h : History) (channel : String) (messages : List String) : History :=
  messages.foldl (fun h message => h.writeNote channel message) h

/-- Recalls the layout of a type, or computes and stores it. -/
def serve (p : Profile) (node : TypeNode) (compute : HistoryM LayoutResult) : HistoryM Stored := do
  if !node.isKey then throw .compositeKey
  match (← get).find? node p with
  | some stored =>
    modify fun h => (h.hit node p).writeNote "cache" (Engine.lookupNote "hit" node p)
    return stored
  | none =>
    modify fun h => h.writeNote "cache" (Engine.lookupNote "miss" node p)
    let result ← compute
    modifyGet fun h => h.store node p result

/-- The setting in which the machine lays out aggregates. -/
def setting (p : Profile) : Setting HistoryM where
  fail f := throw f
  within name x := ExceptT.adapt (Failure.push name) x
  fetch node compute := do
    let stored ← serve p node compute
    return stored.result
  note messages := modify fun h => h.writeNotes "bitfields" messages

/-- The layout of a type by way of the machine, with its serial number. -/
def serveRoot (p : Profile) (node : TypeNode) : HistoryM Stored :=
  ExceptT.adapt (Failure.push node.rootName) (serve p node (node.measure (setting p) p).compute)

/-- The layout of a type by way of the machine. -/
def layout (p : Profile) (node : TypeNode) : HistoryM LayoutResult := do
  let stored ← serveRoot p node
  return stored.result

/-- The machine after a call, whether it succeeds or not. -/
def after (h : History) : Engine.Call → History
  | .clear => h.clear
  | .layout p node => ((layout p node).run h).2

/-- The machine after a list of calls. -/
def replay (h : History) (calls : List Engine.Call) : History := calls.foldl after h

variable {h : History} {node : TypeNode} {p : Profile} {t : Touch}

/-- **What a look-up finds** is what was stored last under its key. -/
theorem lastStored_of_find? {s : Stored} (hfind : h.find? node p = some s) :
    Touch.lastStored node p h.touches = some s := by
  unfold find? at hfind
  split at hfind
  · exact hfind
  · cases hfind

theorem recent_eq_nil (hnil : h.touches = []) : h.recent = [] := by
  unfold recent
  rw [hnil]
  cases h.limit with
  | none => rfl
  | some n => exact List.take_nil

/-- Finding a key makes it the most recent one. -/
theorem recent_hit (ht : t ∈ h.recent) (hholds : t.holds node p = true) :
    (h.hit node p).recent = ⟨node, p, none⟩ :: h.recent.filter fun u => !u.holds node p :=
  Touch.atMost_latest_of_mem ht hholds none

/-- Storing a layout under a key that is not known makes it the most recent one, and the least recent
one may have to go. -/
theorem recent_store (hnew : ∀ u ∈ h.recent, u.holds node p = false) (r : LayoutResult) :
    (h.store node p r).2.recent =
      Touch.atMost h.limit (⟨node, p, some ⟨r, h.issued⟩⟩ :: h.recent) :=
  Touch.atMost_latest_of_forall hnew _

end History

end RecordLayout
