import RecordLayout.Proofs.Layout.Coherence
import RecordLayout.Proofs.Layout.Fill
import RecordLayout.Proofs.Layout.Lockstep

/-!
# An engine in the other direction

An engine that is asked for the same types under the profiles that fill storage from the other end
goes through the same steps: it finds, keeps and drops the same entries, with their bits turned.  So
it answers with the same layouts, bits turned, or with the same failures.

The layouts of the two directions never meet in one engine, since a profile is part of every key.
What they share is the room that a limit leaves.

## Main definitions

* `Engine.flipped` is the engine that has answered in the other direction.

## Main results

* `Engine.bisimulation_flipped`: the two engines go in lockstep;
* `Engine.run_layout_flipped`: a layout by way of an engine;
* `allocated_of_flipped`: in the order of declaration the bits of both directions are the same.
-/

namespace RecordLayout

/-- A kept layout with all bits counted from the other end. -/
def Stored.flipped (s : Stored) : Stored := { s with result := s.result.flipped }

namespace Engine

/-- An entry of the other direction. -/
def Entry.flipped (x : Entry) : Entry := ⟨x.node, x.profile.flipped, x.stored.flipped⟩

/-- The engine that has answered in the other direction. -/
def flipped (e : Engine) : Engine := { e with entries := e.entries.map Entry.flipped }

section Entries

variable (e : Engine) (node : TypeNode) (p : Profile) (x : Entry) (channel message : String)

@[simp] theorem Entry.holds_flipped : x.flipped.holds node p.flipped = x.holds node p := by
  have hprofile : (x.profile.flipped == p.flipped) = (x.profile == p) := by
    rw [Bool.eq_iff_iff, beq_iff_eq, beq_iff_eq, Profile.flipped_inj]
  unfold holds flipped
  rw [hprofile]

/-- A look-up in the other direction finds the same entry. -/
theorem find?_flipped : e.flipped.find? node p.flipped = (e.find? node p).map Entry.flipped := by
  have hholds : Entry.holds node p.flipped ∘ Entry.flipped = Entry.holds node p :=
    funext fun x => x.holds_flipped node p
  rw [find?, flipped, List.find?_map, hholds]
  rfl

theorem touch_flipped : e.flipped.touch x.flipped = (e.touch x).flipped := by
  simp only [touch, flipped, List.map_append, List.map_cons, List.map_nil, List.filter_map]
  rfl

/-- **What is kept in the other direction** is the same layout with its bits turned. -/
theorem keep_flipped (r : LayoutResult) : e.flipped.keep node p.flipped r.flipped =
    ((e.keep node p r).1.flipped, (e.keep node p r).2.flipped) := by
  unfold keep
  rw [find?_flipped]
  cases e.find? node p with
  | some x =>
    dsimp only [Option.map_some]
    rw [touch_flipped, flipped, flipped, withinLimit_map]
    rfl
  | none =>
    -- A new entry goes to the end, and the oldest may have to leave in both engines.
    have hentries : e.flipped.entries ++ [⟨node, p.flipped, ⟨r.flipped, e.issued⟩⟩] =
        List.map Entry.flipped (e.entries ++ [⟨node, p, ⟨r, e.issued⟩⟩]) := by
      rw [List.map_append]
      rfl
    dsimp only [Option.map_none]
    have hissued : e.flipped.issued = e.issued := rfl
    rw [hissued, hentries, withinLimit_map]
    rfl

theorem writeNote_flipped :
    e.flipped.writeNote channel message = (e.writeNote channel message).flipped := by
  unfold writeNote
  have hchannels : e.flipped.channels = e.channels := rfl
  rw [hchannels]
  split <;> rfl

theorem writeNotes_flipped (messages : List String) :
    e.flipped.writeNotes channel messages = (e.writeNotes channel messages).flipped := by
  unfold writeNotes
  induction messages generalizing e with
  | nil => rfl
  | cons message messages ih => rw [List.foldl_cons, writeNote_flipped, ih, List.foldl_cons]

theorem isOverdrawn_flipped : e.flipped.isOverdrawn = e.isOverdrawn := rfl

end Entries

/-! ## Runs -/

/-- **An engine and the engine of the other direction** find, keep and drop entries together. -/
theorem bisimulation_flipped (p : Profile) :
    Bisimulation (.flipped p) (fun e e' => e' = e.flipped) fun _ => True where
  find? {e e'} he node := by
    subst he
    rw [find?_flipped]
    cases e.find? node p with
    | none => exact .none
    | some x => exact .some ⟨Comparison.layouts_flipped.mpr rfl, e.touch_flipped x⟩
  lookupNote he outcome node := he ▸ writeNote_flipped ..
  writeNotes he messages := he ▸ writeNotes_flipped ..
  keep {e e' node r r'} he _ hr := by
    obtain rfl := Comparison.layouts_flipped.mp hr
    subst he
    rw [keep_flipped]
    exact ⟨Comparison.layouts_flipped.mpr rfl, rfl⟩
  isOverdrawn he := he ▸ isOverdrawn_flipped _

/-- **A layout in the other direction**, by way of the engine of the other direction, is the same
layout with its bits turned, or the same failure. -/
theorem run_layout_flipped (p : Profile) (node : TypeNode) (e : Engine) :
    ((layout p.flipped node).run e.flipped).1 =
      ((layout p node).run e).1.map LayoutResult.flipped := by
  have hmeasures := (bisimulation_flipped p).coupling.measures_flipped (fun _ => ⟨rfl, trivial⟩) node
  have hlayout := (bisimulation_flipped p).lockstep_layout hmeasures trivial e e.flipped rfl
  exact Comparison.rel_layouts_flipped.mp hlayout.1

end Engine

/-! ## The order of declaration -/

/-- A computation that turns the bits of its result with the direction has the same result in either
direction, when its bits are numbered in the order of declaration. -/
theorem allocated_of_flipped (outcome : Profile → Except Failure LayoutResult) {p : Profile}
    (h : outcome p.flipped = (outcome p).map LayoutResult.flipped) (fill : FillDirection) :
    (outcome p).map (LayoutResult.allocated p.fill) =
      (outcome { p with fill }).map (LayoutResult.allocated fill) := by
  by_cases hfill : fill = p.fill
  · subst hfill
    rfl
  · obtain rfl := FillDirection.eq_flip_of_ne hfill
    change _ = (outcome p.flipped).map _
    rw [h]
    cases outcome p with
    | error f => rfl
    | ok r => exact congrArg Except.ok (r.allocated_flipped p.fill).symm

theorem layoutOf_allocated (p : Profile) (fill : FillDirection) (node : TypeNode) :
    (layoutOf p node).map (LayoutResult.allocated p.fill) =
      (layoutOf { p with fill } node).map (LayoutResult.allocated fill) :=
  allocated_of_flipped (fun p => layoutOf p node) (layoutOf_flipped p node) fill

/-- **The fill direction only renumbers bits.**  Two fresh engines fail alike, or answer with layouts
that differ in nothing but the bit offsets of bitfields, and every bitfield starts at the same bit in
the order of declaration.  Where the constants in types are whole numbers the engines may have any
history, each its own. -/
theorem Engine.layout_fill (p : Profile) (fill : FillDirection) (node : TypeNode)
    (channels : Channels) (limit : Option Int) :
    ((layout p node).run (make channels limit)).1.map (LayoutResult.allocated p.fill) =
        ((layout { p with fill } node).run (make channels limit)).1.map
          (LayoutResult.allocated fill) ∧
      ∀ calls calls' : List Call, (∀ n ∈ limit, 0 ≤ n) →
        (∀ c ∈ calls ++ calls', c.isIntegral = true) → node.isIntegral = true →
          (((layout p node).run ((make channels limit).replay calls)).1.map
              LayoutResult.bare).map (LayoutResult.allocated p.fill) =
            (((layout { p with fill } node).run ((make channels limit).replay calls')).1.map
              LayoutResult.bare).map (LayoutResult.allocated fill) := by
  constructor
  · have hflipped := run_layout_flipped p node (make channels limit)
    exact allocated_of_flipped (fun p => ((layout p node).run (make channels limit)).1) hflipped fill
  · intro calls calls' hlimit hcalls hnode
    rw [List.forall_mem_append] at hcalls
    have hbefore := (invariant_make channels limit).replay hlimit hcalls.1
    have hbefore' := (invariant_make channels limit).replay hlimit hcalls.2
    -- What an engine answers does not depend on its history, so the plain layouts are compared.
    rw [(hbefore.layout hlimit (.of_isIntegral hnode)).2,
      (hbefore'.layout hlimit (.of_isIntegral hnode)).2]
    exact layoutOf_allocated p fill node.bare

/-- The version in a header has the first three bits in either direction.  They are numbered from
zero when storage is filled from the low end, and from 29 when it is filled from the high end.  It
does not matter what the two engines were asked before. -/
theorem Engine.layout_fill_header :
    ∃ r r', ((layout .lp64 (.aggregate header)).run (make [] (some 1))).1 = .ok r ∧
      ((layout { Profile.lp64 with fill := .highToLow } (.aggregate header)).run
        (make [] (some 1))).1 = .ok r' ∧
      r.members.map (·.bits) = [some ⟨0, 3⟩, none] ∧
      r'.members.map (·.bits) = [some ⟨29, 3⟩, none] ∧
      r.allocated .lowToHigh = r'.allocated .highToLow ∧
      (((layout .lp64 (.aggregate header)).run ((make [] (some 1)).replay
          [.layout .ilp32 (.aggregate header), .clear])).1.map
            LayoutResult.bare).map (LayoutResult.allocated .lowToHigh) =
        (((layout { Profile.lp64 with fill := .highToLow } (.aggregate header)).run
          ((make [] (some 1)).replay [.layout .lp64 (.aggregate header)])).1.map
            LayoutResult.bare).map (LayoutResult.allocated .highToLow) := by
  have hlow : ((layout .lp64 (.aggregate header)).run (make [] (some 1))).1.toOption.map
      (fun r => r.members.map (·.bits)) = some [some ⟨0, 3⟩, none] := by decide +kernel
  have hhigh : ((layout { Profile.lp64 with fill := .highToLow } (.aggregate header)).run
      (make [] (some 1))).1.toOption.map (fun r => r.members.map (·.bits)) =
        some [some ⟨29, 3⟩, none] := by decide +kernel
  obtain ⟨r, hr, hbits⟩ := Option.map_eq_some_iff.mp hlow
  obtain ⟨r', hr', hbits'⟩ := Option.map_eq_some_iff.mp hhigh
  have hr := Except.toOption_eq_some.mp hr
  have hr' := Except.toOption_eq_some.mp hr'
  obtain ⟨hsame, hhistories⟩ := layout_fill .lp64 .highToLow (.aggregate header) [] (some 1)
  rw [hr, hr'] at hsame
  exact ⟨r, r', hr, hr', hbits, hbits', Except.ok.inj hsame,
    hhistories _ _ (by simp) (by decide) (by decide)⟩

end RecordLayout
