import RecordLayout.Dwarf.Placement
import RecordLayout.Proofs.Dwarf.Depth
import RecordLayout.Proofs.Dwarf.Kept

/-!
# A builder has no memory

Whatever a builder has been asked for, it answers as a fresh one does: the types it keeps do not show
in its answers, failures included.  An aggregate that contains itself is never kept, and it does not
count as being built any more once its failure has been reported.

This is for information in which no chain of aliases and arrays runs in a circle, so that the bound
on the depth of references is never met, and in which offsets identify entries.

## Main definitions

* `Builder.Call` is a call that a program makes, and `Builder.replay` runs a list of them.

## Main results

* `retells_buildTo`: kept types change nothing;
* `run_build_ne_endlessReference`: the references that a builder follows end;
* `Ready.after`: a call leaves a builder ready for the next one, even when it fails;
* `run_build_replay`: a builder answers as a fresh one does.
-/

namespace RecordLayout.Dwarf

variable {info : Info} {building : List Nat}

/-! ## All entries -/

section All

variable {depth : Nat} {b : Builder} {d : Die} {od : Option Die}

theorem run_buildTo_of_find? {node : TypeNode}
    (h : b.find? (info.canonical d).offset = some node) :
    (buildTo info (depth + 1) (some d)).run b = (.ok node, b) := by
  rw [buildTo, BuildM.run_get_bind, h]
  rfl

theorem run_buildTo_of_find?_eq_none (h : b.find? (info.canonical d).offset = none) :
    (buildTo info (depth + 1) (some d)).run b =
      (do
        let node ← buildEntry info (buildTo info depth) (info.canonical d)
        modify fun b => { b with built := ((info.canonical d).offset, node) :: b.built }
        return node : BuildM TypeNode).run b := by
  rw [buildTo, BuildM.run_get_bind, h]

theorem Builder.ne_of_find?_eq_none {offset : Nat} (h : b.find? offset = none) :
    ∀ e ∈ b.built, e.1 ≠ offset := by
  intro e he heq
  refine List.find?_eq_none.mp (Option.map_eq_none_iff.mp h) e he ?_
  simpa using heq

variable (hoffsets : (info.dies.map (·.offset)).Nodup)

include hoffsets

/-- An aggregate that is being built is not built to the end once more. -/
theorem Ready.not_mem_of_yields {K : Option Die → TypeNode → Prop} {node : TypeNode}
    (hb : Ready info building b) (hd : d ∈ info.dies)
    (h : BuildLogic.Yields info K building d node) : d.offset ∉ building := by
  intro hmem
  obtain ⟨d', hd', hoffset, hagg, hdef⟩ := hb.entries d.offset hmem
  obtain rfl := List.inj_on_of_nodup_map hoffsets hd' hd hoffset
  exact h.new hagg hdef hmem

/-- A kept type is what building anew gives. -/
theorem Ready.comesTo_of_find? (hb : Ready info building b) (hd : d ∈ info.dies)
    {node : TypeNode} (hfind : b.find? (info.canonical d).offset = some node) {building' : List Nat}
    (hapart : Table.Apart b.built building') :
    ComesTo (fun depth => buildAnewTo info depth (some d)) building' (.ok node) := by
  obtain ⟨d', hd', hself, hoffset, hcomes⟩ := hb.valid _ (Builder.mem_of_find? hfind)
  have hsame : d' = info.canonical d :=
    List.inj_on_of_nodup_map hoffsets hd' (Info.canonical_mem hd) hoffset
  refine (hcomes building' hapart).congr fun depth c _ => ?_
  rw [hsame, buildAnewTo_canonical]

omit hoffsets in
theorem retells_buildTo_none (depth : Nat) : Retells info building [] (buildTo info depth none)
    (fun depth => buildAnewTo info depth none) fun _ => True := by
  intro b hb _
  simp only [buildAnewTo_none]
  cases depth <;> exact .of_comesTo hb (fun _ _ => .pure _) trivial

/-- **Kept types change nothing.** -/
theorem retells_buildTo (hod : ∀ d ∈ od, d ∈ info.dies) (henough : Enough info depth building od) :
    Retells info building [] (buildTo info depth od) (fun depth => buildAnewTo info depth od)
      fun _ => True := by
  induction depth generalizing building od with
  | zero =>
    cases od with
    | none => exact retells_buildTo_none 0
    | some d => exact henough.elim
  | succ depth ih =>
    cases od with
    | none => exact retells_buildTo_none (depth + 1)
    | some d =>
      obtain ⟨hpasses, hmembers⟩ := henough
      have hmem : info.canonical d ∈ info.dies := Info.canonical_mem (hod d rfl)
      have hself := info.canonical_canonical d
      intro b hb _
      cases hfind : b.find? (info.canonical d).offset with
      | some node =>
        refine Retold.congr (.of_comesTo hb (fun building' hapart => ?_) trivial)
          (run_buildTo_of_find? hfind) (fun _ _ _ hz => hz) nofun
        exact hb.comesTo_of_find? hoffsets (hod d rfl) hfind hapart
      | none =>
        -- The type is built from those that the entry refers to, and then kept.
        have hentry : Retells info building [(info.canonical d).offset]
            (buildEntry info (buildTo info depth) (info.canonical d))
            (fun depth => buildAnewTo info (depth + 1) (some (info.canonical d)))
            (BuildLogic.Yields info (fun _ _ => True) building (info.canonical d)) := by
          simp only [buildAnewTo, hself]
          refine (retellingLogic info).tells_buildEntry hmem (fun htag => ?_)
            fun hagg hnew c hc hmember =>
              ih (fun _ h => Info.mem_of_typeOf? h) (hmembers hagg hnew c hc hmember)
          refine ih (fun _ h => Info.mem_of_typeOf? h) ?_
          cases htype : info.typeOf? (info.canonical d) with
          | none => cases depth <;> trivial
          | some e => exact hpasses e ⟨htag, htype⟩
        have hkeep := (hentry b hb (List.forall_mem_singleton.mpr (b.ne_of_find?_eq_none hfind))).keep
          hmem hself fun node hnode => hb.not_mem_of_yields hoffsets hmem hnode
        simp only [buildAnewTo_canonical] at hkeep
        exact (hkeep.mono fun _ _ => trivial).congr (run_buildTo_of_find?_eq_none hfind)
          (fun _ _ _ hz => hz) nofun

end All

/-! ## Histories -/

/-- A call that a program makes. -/
inductive Builder.Call where
  | build (d : Option Die)
  | findRoot (typeName : String)
  | buildType (typeName : String)

/-- Whether a call is about entries of the information. -/
def Builder.Call.IsAbout (info : Info) : Call → Prop
  | .build d => ∀ d' ∈ d, d' ∈ info.dies
  | .findRoot _ | .buildType _ => True

/-- The builder after a call, whether it succeeds or not. -/
def Builder.after (info : Info) (b : Builder) : Call → Builder
  | .build d => ((Dwarf.build info d).run b).2
  | .findRoot typeName => ((check (info.findRoot typeName)).run b).2
  | .buildType typeName => ((Dwarf.buildType info typeName).run b).2

/-- The builder after a list of calls. -/
def Builder.replay (info : Info) (b : Builder) (calls : List Call) : Builder :=
  calls.foldl (after info) b

section Histories

variable {b : Builder} {od : Option Die} (hoffsets : (info.dies.map (·.offset)).Nodup)
  (hends : info.ChainsEnd)

include hoffsets hends

theorem retold_build (hb : Ready info [] b) (hod : ∀ d ∈ od, d ∈ info.dies) :
    Retold info [] [] b (build info od) (fun depth => buildAnewTo info depth od) fun _ => True :=
  retells_buildTo hoffsets hod (enough_depthBound hends hod) b hb (List.forall_mem_nil _)

/-- **The references that a builder follows end**, whatever it has been asked for before. -/
theorem run_build_ne_endlessReference (hb : Ready info [] b) (hod : ∀ d ∈ od, d ∈ info.dies) :
    ((build info od).run b).1 ≠ .error .endlessReference :=
  (retold_build hoffsets hends hb hod).ends

/-- **A call leaves a builder ready for the next one**, even when it fails. -/
theorem Ready.after (hb : Ready info [] b) {call : Builder.Call} (hcall : call.IsAbout info) :
    Ready info [] (b.after info call) := by
  cases call with
  | build d => exact (retold_build hoffsets hends hb hcall).ready
  | findRoot typeName => simpa [Builder.after] using hb
  | buildType typeName =>
    simp only [Builder.after, buildType, BuildM.run_bind, BuildM.run_check]
    cases hroot : info.findRoot typeName with
    | error e => exact hb
    | ok root =>
      have hod : ∀ d ∈ some (info.canonical root), d ∈ info.dies := by
        rintro _ ⟨⟩
        exact Info.canonical_mem (Info.aggregate_of_findRoot hroot).1
      have hbuilt := (retold_build hoffsets hends hb hod).ready
      dsimp only
      generalize (build info (some (info.canonical root))).run b = out at hbuilt ⊢
      obtain ⟨e | node, b'⟩ := out
      · exact hbuilt
      · cases expectedMembers info (info.canonical root) <;> exact hbuilt

theorem Ready.replay (hb : Ready info [] b) {calls : List Builder.Call}
    (hcalls : ∀ call ∈ calls, call.IsAbout info) : Ready info [] (b.replay info calls) :=
  List.foldlRecOn calls (Builder.after info) hb fun _ hb call hcall =>
    hb.after hoffsets hends (hcalls call hcall)

/-- **A builder answers as a fresh one does**, whatever it has been asked for before. -/
theorem run_build_replay {calls : List Builder.Call} (hcalls : ∀ call ∈ calls, call.IsAbout info)
    (hod : ∀ d ∈ od, d ∈ info.dies) :
    ((build info od).run (Builder.fresh.replay info calls)).1 = ((build info od).run .fresh).1 := by
  -- Both builders retell the same walk, which comes to one thing only.
  have hfresh := ready_fresh info
  have hready := hfresh.replay hoffsets hends hcalls
  exact (retold_build hoffsets hends hready hod).comes.unique
    (retold_build hoffsets hends hfresh hod).comes

end Histories

/-- A number, and a struct with a number and another one of itself, under another name. -/
def nested : Info := .ofRoots .little 8
  [⟨baseTag, 1, 8, false, [("DW_AT_name", .text "int"), ("DW_AT_byte_size", .ofInt 4)], none, []⟩,
   ⟨structTag, 2, 8, true, [("DW_AT_name", .text "S")], none,
    [⟨memberTag, 3, 8, false, [("DW_AT_name", .text "n")], some 1, []⟩,
     ⟨memberTag, 4, 8, false, [("DW_AT_name", .text "s")], some 5, []⟩]⟩,
   ⟨typedefTag, 5, 8, false, [("DW_AT_name", .text "S_t")], some 2, []⟩]

/-- Once the struct has been reported, its entries are built and reported as before. -/
theorem run_build_replay_nested :
    (nested.dies.map (·.offset)).Nodup ∧ nested.ChainsEnd ∧
      ((buildType nested "S_t").run .fresh).1 =
        .error (.ofCause (.recordedCycle (some "S"))) ∧
      ∀ d ∈ nested.dies,
        ((build nested (some d)).run
            (Builder.fresh.replay nested
              [.buildType "S_t", .findRoot "T", .build (some d)])).1 =
          ((build nested (some d)).run .fresh).1 := by
  have hoffsets : (nested.dies.map (·.offset)).Nodup := by decide +kernel
  have hends : nested.ChainsEnd := Info.chainsEnd_of_lt (by decide +kernel)
  refine ⟨hoffsets, hends, rfl, fun d hd => ?_⟩
  have hod : ∀ d' ∈ some d, d' ∈ nested.dies := by
    rintro _ ⟨⟩
    exact hd
  refine run_build_replay hoffsets hends ?_ hod
  rw [List.forall_mem_cons, List.forall_mem_cons, List.forall_mem_singleton]
  exact ⟨trivial, trivial, hod⟩

end RecordLayout.Dwarf
