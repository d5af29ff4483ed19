import RecordLayout.Proofs.Layout.DataModel
import RecordLayout.Proofs.Layout.Lockstep

/-!
# Engines under two data models

Two fresh engines that are asked for the same type, the one under a profile and the other under the
same profile with another data model, go through the same steps: they find, keep and drop entries of
the same types with the same layouts.  For a type that brings its own sizes they answer alike.

The engines must have kept nothing under other profiles.  An engine takes constants that are equal as
keys for one another, so what it kept before can show in its answers, and it may have kept more under
one of the two profiles.  The notes of the two engines differ, since they name the profile.

## Main definitions

* `Engine.Twins` relates two engines that have kept the same layouts under two profiles.

## Main results

* `Engine.bisimulation_twins`: such engines go in lockstep;
* `Engine.inTwins_layout`: a layout by way of an engine.
-/

namespace RecordLayout.Engine

/-- The entry under another profile. -/
def Entry.under (p : Profile) (x : Entry) : Entry := { x with profile := p }

/-- Two engines that have kept the same layouts, the one under `p` and the other under `p'`. -/
structure Twins (p p' : Profile) (e e' : Engine) : Prop where
  limit : e'.limit = e.limit
  issued : e'.issued = e.issued
  profile : ∀ x ∈ e.entries, x.profile = p
  entries : e'.entries = e.entries.map (Entry.under p')

variable {p p' : Profile} {e e' : Engine} {node : TypeNode}

theorem twins_make (channels channels' : Channels) (limit : Option Int) :
    Twins p p' (make channels limit) (make channels' limit) := ⟨rfl, rfl, nofun, rfl⟩

namespace Twins

/-- Twins may take different notes. -/
theorem writeNote (h : Twins p p' e e') (channel channel' message message' : String) :
    Twins p p' (e.writeNote channel message) (e'.writeNote channel' message') := by
  obtain ⟨log, hlog⟩ := e.writeNote_eq channel message
  obtain ⟨log', hlog'⟩ := e'.writeNote_eq channel' message'
  rw [hlog, hlog']
  exact ⟨h.limit, h.issued, h.profile, h.entries⟩

theorem writeNotes (h : Twins p p' e e') (channel : String) (messages : List String) :
    Twins p p' (e.writeNotes channel messages) (e'.writeNotes channel messages) := by
  unfold Engine.writeNotes
  induction messages generalizing e e' with
  | nil => exact h
  | cons message messages ih => exact ih (h.writeNote channel channel message message)

/-- The entries of each twin are of one profile, so a look-up compares nothing but types. -/
theorem find? (h : Twins p p' e e') (node : TypeNode) :
    e'.find? node p' = (e.find? node p).map (Entry.under p') := by
  have hholds : ∀ x ∈ e.entries, (Entry.holds node p' ∘ Entry.under p') x = x.holds node p := by
    intro x hx
    simp [Entry.holds, Entry.under, h.profile x hx]
  unfold Engine.find?
  rw [h.entries, List.find?_map, ← List.head?_filter, List.filter_congr hholds, List.head?_filter]

theorem touch (h : Twins p p' e e') {x : Entry} (hx : x ∈ e.entries) :
    Twins p p' (e.touch x) (e'.touch (x.under p')) where
  limit := h.limit
  issued := h.issued
  profile := by
    rw [Engine.touch, List.forall_mem_append, List.forall_mem_singleton]
    refine ⟨?_, h.profile x hx⟩
    intro y hy
    exact h.profile y (List.mem_filter.mp hy).1
  entries := by
    simp only [Engine.touch, h.entries, List.map_append, List.filter_map, List.map_cons,
      List.map_nil]
    rfl

/-- Twins with the same limit drop the same entries. -/
theorem withinLimit (h : Twins p p' e e') (issued : Nat) :
    Twins p p' { e with entries := Engine.withinLimit e.limit e.entries, issued }
      { e' with entries := Engine.withinLimit e'.limit e'.entries, issued } where
  limit := h.limit
  issued := rfl
  profile x hx := h.profile x ((withinLimit_sublist _ _).mem hx)
  entries := by
    dsimp only
    rw [h.limit, h.entries, withinLimit_map]

/-- **Twins keep the same layout**, one that was there or the new one. -/
theorem keep (h : Twins p p' e e') (node : TypeNode) (r : LayoutResult) :
    (e'.keep node p' r).1 = (e.keep node p r).1 ∧
      Twins p p' (e.keep node p r).2 (e'.keep node p' r).2 := by
  unfold Engine.keep
  rw [h.find? node, h.issued]
  cases hfind : e.find? node p with
  | some x =>
    refine ⟨rfl, ?_⟩
    exact (h.touch (mem_of_find? hfind).1).withinLimit e.issued
  | none =>
    refine ⟨rfl, ?_⟩
    have hnew : Twins p p' { e with entries := e.entries ++ [⟨node, p, ⟨r, e.issued⟩⟩] }
        { e' with entries := e'.entries ++ [⟨node, p', ⟨r, e.issued⟩⟩] } := by
      refine ⟨h.limit, h.issued, ?_, ?_⟩
      · rw [List.forall_mem_append, List.forall_mem_singleton]
        exact ⟨h.profile, rfl⟩
      · rw [h.entries, List.map_append]
        rfl
    exact hnew.withinLimit (e.issued + 1)

theorem isOverdrawn (h : Twins p p' e e') : e'.isOverdrawn = e.isOverdrawn :=
  congrArg (Option.any _) h.limit

end Twins

/-! ## Runs -/

/-- **Twins** find, keep and drop entries together. -/
theorem bisimulation_twins (p q : Profile) :
    Bisimulation (.withDataModel p q) (Twins p (p.withDataModel q)) fun _ => True where
  find? {e e'} he node := by
    rw [he.find?]
    cases hfind : e.find? node p with
    | none => exact .none
    | some x => exact .some ⟨rfl, he.touch (mem_of_find? hfind).1⟩
  lookupNote he outcome node := he.writeNote _ _ _ _
  writeNotes he messages := he.writeNotes _ messages
  keep {e e' node r r'} he _ hr := by
    obtain rfl := Comparison.layouts_same.mp hr
    obtain ⟨hstored, hkept⟩ := he.keep node r'
    exact ⟨Comparison.layouts_same.mpr (congrArg Stored.result hstored), hkept⟩
  isOverdrawn he := he.isOverdrawn

/-- **A layout on twins**: both answer alike for a type that brings its own sizes. -/
theorem inTwins_layout (p q : Profile) (h : node.IsSelfContained) :
    Lockstep (Twins p (p.withDataModel q)) Eq (layout p node) (layout (p.withDataModel q) node) := by
  have hmeasures : (bisimulation_twins p q).coupling.Measures node node :=
    Coupling.measures_self (C := .withDataModel p q) (fun _ => rfl) hereditary_true
      (fun _ ha => ⟨rfl, ha⟩) (h.isMeasuredAlike p q) trivial
  refine ((bisimulation_twins p q).lockstep_layout hmeasures trivial).imp fun r r' hr => ?_
  exact (Comparison.layouts_same.mp hr).symm

end RecordLayout.Engine
