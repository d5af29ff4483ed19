import Mathlib.Data.List.Nodup
import RecordLayout.Proofs.Dwarf.Entry

/-!
# What a builder builds

A property of entries and types that what is built for one entry has holds of every type that is
built, if it does not tell entries at the same offset apart.  With distinct offsets no property does.

Whether it fails or not, a computation leaves the aggregates that are being built as they were.

## Main definitions

* `Builder.Sound` says of a builder that all it keeps has a property;
* `Built` says of a computation that what it returns has a property, and its builder stays sound.

## Main results

* `builtLogic`: these computations keep to the rules of builders;
* `built_buildTo`: the induction principle.
-/

namespace RecordLayout.Dwarf

/-! ## Builders -/

section Builders

variable {info : Info} {Q : Die → TypeNode → Prop} {α β : Type} {building : List Nat}

/-- What is known of the type that a reference leads to: `Q` of the entry that stands for the one
referred to. -/
def Info.Known (info : Info) (Q : Die → TypeNode → Prop) : Option Die → TypeNode → Prop
  | none, node => node = .incomplete (.name "void")
  | some d, node => Q (info.canonical d) node

/-- All that a builder keeps has the property `Q`. -/
def Builder.Sound (info : Info) (Q : Die → TypeNode → Prop) (b : Builder) : Prop :=
  ∀ e ∈ b.built, ∃ d ∈ info.dies, d.offset = e.1 ∧ Q d e.2

/-- What is found at an offset is kept there. -/
theorem Builder.mem_of_find? {b : Builder} {offset : Nat} {node : TypeNode}
    (h : b.find? offset = some node) : (offset, node) ∈ b.built := by
  obtain ⟨⟨o, n⟩, he, rfl⟩ := Option.map_eq_some_iff.mp h
  obtain rfl : o = offset := by simpa using List.find?_some he
  exact List.mem_of_find?_eq_some he

theorem Builder.sound_fresh : Builder.fresh.Sound info Q := by
  intro e he
  simp [Builder.fresh] at he

/-- With a sound builder that is building certain aggregates `x` returns what satisfies `R`, and
leaves such a builder even when it fails. -/
def Built (info : Info) (Q : Die → TypeNode → Prop) (building : List Nat) (x : BuildM α)
    (R : α → Prop) : Prop :=
  ∀ b : Builder, b.Sound info Q → b.building = building →
    (x.run b).2.Sound info Q ∧ (x.run b).2.building = building ∧ ∀ a, (x.run b).1 = .ok a → R a

namespace Built

variable {R : α → Prop} {S : β → Prop}

theorem pure {a : α} (h : R a) : Built info Q building (pure a) R :=
  fun _ hb hbuilding => ⟨hb, hbuilding, fun _ ha => Except.ok.inj ha ▸ h⟩

theorem throw (f : Failure) : Built info Q building (throw f : BuildM α) R :=
  fun _ hb hbuilding => ⟨hb, hbuilding, nofun⟩

theorem bind {x : BuildM α} {f : α → BuildM β} (hx : Built info Q building x R)
    (hf : ∀ a, R a → Built info Q building (f a) S) : Built info Q building (x >>= f) S := by
  intro b hb hbuilding
  obtain ⟨hb', hbuilding', hR⟩ := hx b hb hbuilding
  rw [BuildM.run_bind]
  generalize x.run b = out at hb' hbuilding' hR ⊢
  obtain ⟨failure | a, b'⟩ := out
  · exact ⟨hb', hbuilding', nofun⟩
  · exact hf a (hR a rfl) b' hb' hbuilding'

theorem mono {x : BuildM α} {R' : α → Prop} (h : Built info Q building x R)
    (hR : ∀ a, R a → R' a) : Built info Q building x R' := by
  intro b hb hbuilding
  obtain ⟨hb', hbuilding', hreturns⟩ := h b hb hbuilding
  exact ⟨hb', hbuilding', fun a ha => hR a (hreturns a ha)⟩

theorem check (y : Except Failure α) : Built info Q building (check y) fun a => y = .ok a := by
  cases y with
  | ok a => exact Built.pure rfl
  | error f => exact Built.throw f

theorem get : Built info Q building (get : BuildM Builder) (Builder.Sound info Q) :=
  fun _ hb hbuilding => ⟨hb, hbuilding, fun _ ha => Except.ok.inj ha ▸ hb⟩

theorem whileBuilding {x : BuildM α} {offset : Nat} (h : Built info Q (offset :: building) x R) :
    Built info Q building (whileBuilding offset x) R := by
  intro b hb hbuilding
  obtain ⟨hb', hbuilding', hR⟩ :=
    h { b with building := offset :: b.building } hb (congrArg _ hbuilding)
  rw [BuildM.run_whileBuilding]
  exact ⟨hb', by simp only [hbuilding', List.erase_cons_head], hR⟩

/-- A type with the property may be kept. -/
theorem keep {d : Die} {node : TypeNode} (hd : d ∈ info.dies) (h : Q d node) :
    Built info Q building
      (modify fun b => { b with built := (d.offset, node) :: b.built } : BuildM Unit)
      fun _ => True := by
  refine fun b hb hbuilding => ⟨fun e he => ?_, hbuilding, fun _ _ => trivial⟩
  rcases List.mem_cons.mp he with rfl | he
  · exact ⟨d, hd, rfl, h⟩
  · exact hb e he

/-- An aggregate begins to be built unless it is being built already. -/
theorem enter {x : BuildM α} {d : Die}
    (h : d.offset ∉ building → Built info Q (d.offset :: building) x R) :
    Built info Q building (enter d x) fun a => d.offset ∉ building ∧ R a := by
  intro b hb hbuilding
  by_cases hmem : d.offset ∈ building
  · rw [run_enter_of_mem (hbuilding ▸ hmem)]
    exact ⟨hb, hbuilding, nofun⟩
  · rw [run_enter_of_not_mem (hbuilding ▸ hmem)]
    exact ((h hmem).whileBuilding.mono fun _ ha => ⟨hmem, ha⟩) b hb hbuilding

end Built

/-- **Nothing else is returned**: the rules for what a sound builder builds. -/
def builtLogic (info : Info) (Q : Die → TypeNode → Prop) : BuildLogic info where
  Tells building _ x _ R := Built info Q building x R
  of_pure _ := .pure rfl
  throw _ := .throw _
  bind hx hf := hx.bind fun a ha => (hf a ha).mono fun _ hb => ⟨a, ha, hb⟩
  note _ := fun _ hb hbuilding => ⟨hb, hbuilding, fun _ _ => trivial⟩
  enter _ _ _ h := .enter h
  weaken h := h
  congr hR h := h.mono fun a => (hR a).mp

end Builders

/-! ## All entries -/

/-- Entries at one offset have the same properties, when all offsets are distinct. -/
theorem Info.of_offset_eq {info : Info} {Q : Die → TypeNode → Prop}
    (hoffsets : (info.dies.map (·.offset)).Nodup) :
    ∀ d ∈ info.dies, ∀ d' ∈ info.dies, d.offset = d'.offset → ∀ node, Q d node → Q d' node := by
  intro d hd d' hd' hoffset node hnode
  rwa [← List.inj_on_of_nodup_map hoffsets hd hd' hoffset]

section All

variable {info : Info} {Q : Die → TypeNode → Prop}
  (hQ : ∀ d ∈ info.dies, info.canonical d = d → ∀ node,
    BuiltEntry info (info.Known Q) d node → Q d node)

include hQ

/-- **Induction on what is built**: a property that what is built for one entry has, and that does
not tell entries at the same offset apart, holds of all types that are built. -/
theorem built_buildTo
    (hsame : ∀ d ∈ info.dies, ∀ d' ∈ info.dies, d.offset = d'.offset → ∀ node, Q d node → Q d' node)
    (depth : Nat) {od : Option Die} (hod : ∀ d ∈ od, d ∈ info.dies) (building : List Nat) :
    Built info Q building (buildTo info depth od) (info.Known Q od) := by
  induction depth generalizing od building with
  | zero =>
    cases od with
    | none => exact Built.pure rfl
    | some d => exact Built.throw _
  | succ depth ih =>
    cases od with
    | none => exact Built.pure rfl
    | some d =>
      have hmem : info.canonical d ∈ info.dies := Info.canonical_mem (hod d rfl)
      have hrefer (e : Die) (building : List Nat) :
          Built info Q building (buildTo info depth (info.typeOf? e))
            (info.Known Q (info.typeOf? e)) := ih (fun _ h => Info.mem_of_typeOf? h) building
      have hentry : Built info Q building (buildEntry info (buildTo info depth) (info.canonical d))
          (info.Known Q (some d)) := by
        have hyields : Built info Q building
            (buildEntry info (buildTo info depth) (info.canonical d))
            (BuildLogic.Yields info (info.Known Q) building (info.canonical d)) :=
          (builtLogic info Q).tells_buildEntry (g := fun _ => buildTo info depth) hmem
            (fun _ => hrefer _ _) fun _ _ c _ _ => hrefer c _
        exact hyields.mono fun node h => hQ _ hmem (info.canonical_canonical d) node h.built
      unfold buildTo
      refine Built.get.bind fun b hb => ?_
      split
      · rename_i node hfind
        obtain ⟨d', hd', hoffset, hnode⟩ := hb _ (Builder.mem_of_find? hfind)
        exact Built.pure (hsame d' hd' _ hmem hoffset _ hnode)
      · refine hentry.bind fun node hnode => ?_
        exact (Built.keep hmem hnode).bind fun _ _ => Built.pure hnode

/-- What is built for an entry by a fresh builder, when all offsets are distinct. -/
theorem known_of_build (hoffsets : (info.dies.map (·.offset)).Nodup) {d : Die} (hd : d ∈ info.dies)
    {node : TypeNode} (h : ((build info (some d)).run .fresh).1 = .ok node) :
    Q (info.canonical d) node := by
  have hbuilt := built_buildTo hQ (Info.of_offset_eq hoffsets) (depthBound info)
    (Info.forall_mem_some hd) []
  exact (hbuilt .fresh Builder.sound_fresh rfl).2.2 node h

end All

end RecordLayout.Dwarf
