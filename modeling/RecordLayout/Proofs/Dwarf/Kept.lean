import Mathlib.Order.Filter.AtTopBot.Basic
import RecordLayout.Proofs.Dwarf.Building

/-!
# Types that a builder keeps

A builder keeps the types it has built and knows which aggregates it is building.  Here the same walk
is done without the kept types, where the type of an entry depends on nothing but the entries, the
aggregates being built and the depth, and a computation that uses kept types is compared with one
that does not.

A kept type was built while certain aggregates were being built, at a certain depth.  It is right
while others are being built too, and at all depths that are enough: all that it needed is kept by
now, so none of it is being built.

## Main definitions

* `buildAnewTo` builds the type of an entry without kept types;
* `ComesTo` says what a computation comes to at all sufficient depths;
* `Table.Valid` says that kept types are what building anew gives;
* `Retold` and `Retells` compare a computation that uses kept types with one that uses none.

## Main results

* `ComesTo.unique`: a computation comes to one thing only;
* `Retold.bind`: computations are compared step by step;
* `Retells.enter`: an aggregate that begins to be built;
* `Retold.keep`: a type that is kept;
* `retellingLogic`: these computations keep to the rules of builders.
-/

namespace RecordLayout.Dwarf

open Filter

variable {info : Info} {α β : Type} {building : List Nat}

/-! ## Building anew -/

/-- The type of an entry, built anew whenever it is asked for. -/
def buildAnewTo (info : Info) : Nat → Option Die → BuildM TypeNode
  | _, none => return .incomplete (.name "void")
  | 0, some _ => throw .endlessReference
  | depth + 1, some d => buildEntry info (buildAnewTo info depth) (info.canonical d)

theorem buildAnewTo_none (depth : Nat) :
    buildAnewTo info depth none = pure (.incomplete (.name "void")) := by
  cases depth <;> rfl

/-- The entry that stands for an entry is built in its place. -/
theorem buildAnewTo_canonical (depth : Nat) (d : Die) :
    buildAnewTo info depth (some (info.canonical d)) = buildAnewTo info depth (some d) := by
  cases depth with
  | zero => rfl
  | succ depth => rw [buildAnewTo, buildAnewTo, info.canonical_canonical]

/-- At all sufficient depths `z` comes to `o` while the aggregates `building` are being built,
whatever else the builder holds, and leaves these aggregates as they are. -/
def ComesTo (z : Nat → BuildM α) (building : List Nat) (o : Except Failure α) : Prop :=
  ∀ᶠ depth in atTop, ∀ c : Builder, c.building = building →
    ((z depth).run c).1 = o ∧ ((z depth).run c).2.building = building

namespace ComesTo

variable {z : Nat → BuildM α} {k : Nat → α → BuildM β} {a : α} {o o' : Except Failure α}

theorem pure (a : α) : ComesTo (fun _ => pure a) building (.ok a) :=
  .of_forall fun _ _ hc => ⟨rfl, hc⟩

theorem throw (f : Failure) : ComesTo (fun _ => (throw f : BuildM α)) building (.error f) :=
  .of_forall fun _ _ hc => ⟨rfl, hc⟩

theorem note (message : String) : ComesTo (fun _ => note message) building (.ok ()) :=
  .of_forall fun _ _ hc => ⟨rfl, hc⟩

theorem bind {o : Except Failure β} (hz : ComesTo z building (.ok a))
    (hk : ComesTo (fun depth => k depth a) building o) :
    ComesTo (fun depth => z depth >>= k depth) building o := by
  filter_upwards [hz, hk] with depth hz hk c hc
  obtain ⟨hout, hbuilding⟩ := hz c hc
  rw [BuildM.run_bind]
  generalize (z depth).run c = out at hout hbuilding ⊢
  obtain ⟨_, c'⟩ := out
  obtain rfl := hout
  exact hk c' hbuilding

theorem bind_error {f : Failure} (hz : ComesTo z building (.error f)) :
    ComesTo (fun depth => z depth >>= k depth) building (.error f) := by
  filter_upwards [hz] with depth hz c hc
  obtain ⟨hout, hbuilding⟩ := hz c hc
  rw [BuildM.run_bind]
  generalize (z depth).run c = out at hout hbuilding ⊢
  obtain ⟨_, c'⟩ := out
  obtain rfl := hout
  exact ⟨rfl, hbuilding⟩

theorem whileBuilding {offset : Nat} (hz : ComesTo z (offset :: building) o) :
    ComesTo (fun depth => whileBuilding offset (z depth)) building o := by
  filter_upwards [hz] with depth hz c hc
  obtain ⟨hout, hbuilding⟩ := hz { c with building := offset :: c.building } (by rw [hc])
  rw [BuildM.run_whileBuilding]
  exact ⟨hout, by simp only [hbuilding, List.erase_cons_head]⟩

/-- What only matters is how the computation runs while the aggregates are being built. -/
theorem congr {z' : Nat → BuildM α} (hz : ComesTo z building o)
    (h : ∀ depth c, c.building = building → (z' depth).run c = (z depth).run c) :
    ComesTo z' building o := by
  filter_upwards [hz] with depth hz c hc
  rw [h depth c hc]
  exact hz c hc

/-- One more step does not change which depths are sufficient in the end. -/
theorem of_succ (hz : ComesTo (fun depth => z (depth + 1)) building o) : ComesTo z building o := by
  obtain ⟨least, hleast⟩ := eventually_atTop.mp hz
  refine eventually_atTop.mpr ⟨least + 1, fun depth hdepth => ?_⟩
  obtain ⟨depth, rfl⟩ := Nat.exists_eq_add_of_le' (Nat.one_le_of_lt hdepth)
  exact hleast depth (Nat.le_of_succ_le_succ hdepth)

/-- A computation comes to one thing only. -/
theorem unique (h : ComesTo z building o) (h' : ComesTo z building o') : o = o' := by
  obtain ⟨depth, hz, hz'⟩ := (h.and h').exists
  exact (hz ⟨[], building, #[]⟩ rfl).1.symm.trans (hz' ⟨[], building, #[]⟩ rfl).1

end ComesTo

/-! ## Kept types -/

/-- Types that are kept, by offset. -/
abbrev Table := List (Nat × TypeNode)

namespace Table

variable {table table' : Table}

/-- None of the aggregates that are being built is kept. -/
def Apart (table : Table) (building : List Nat) : Prop := ∀ e ∈ table, e.1 ∉ building

/-- What is kept for an offset is what building the entry anew gives, whichever aggregates that are
not kept are being built. -/
def Valid (info : Info) (table : Table) : Prop :=
  ∀ e ∈ table, ∃ d ∈ info.dies, info.canonical d = d ∧ d.offset = e.1 ∧
    ∀ building, table.Apart building →
      ComesTo (fun depth => buildAnewTo info depth (some d)) building (.ok e.2)

theorem Apart.mono (h : table'.Apart building) (hsub : table ⊆ table') : table.Apart building :=
  fun e he => h e (hsub he)

theorem apart_cons_iff {e : Nat × TypeNode} :
    Apart (e :: table) building ↔ e.1 ∉ building ∧ table.Apart building :=
  List.forall_mem_cons

/-- An aggregate that is not kept may begin to be built. -/
theorem Apart.begin {offset : Nat} (h : table.Apart building) (hnew : ∀ e ∈ table, e.1 ≠ offset) :
    table.Apart (offset :: building) :=
  fun e he => List.not_mem_cons_of_ne_of_not_mem (hnew e he) (h e he)

theorem Apart.ne {offset : Nat} (h : table.Apart (offset :: building)) :
    ∀ e ∈ table, e.1 ≠ offset :=
  fun e he => List.ne_of_not_mem_cons (h e he)

theorem Apart.of_cons {offset : Nat} (h : table.Apart (offset :: building)) :
    table.Apart building :=
  fun e he => List.not_mem_of_not_mem_cons (h e he)

/-- A type that building anew gives, with all that it needs kept already, may be kept. -/
theorem Valid.cons {d : Die} {node : TypeNode} (h : table.Valid info) (hd : d ∈ info.dies)
    (hself : info.canonical d = d)
    (hnode : ∀ building, d.offset ∉ building → table.Apart building →
      ComesTo (fun depth => buildAnewTo info depth (some d)) building (.ok node)) :
    Valid info ((d.offset, node) :: table) := by
  intro e he
  rcases List.mem_cons.mp he with rfl | he
  · refine ⟨d, hd, hself, rfl, fun building hapart => ?_⟩
    obtain ⟨hnew, hapart⟩ := apart_cons_iff.mp hapart
    exact hnode building hnew hapart
  · obtain ⟨d', hd', hself', hoffset, hcomes⟩ := h e he
    exact ⟨d', hd', hself', hoffset, fun building hapart =>
      hcomes building (apart_cons_iff.mp hapart).2⟩

end Table

/-! ## Computations with kept types -/

/-- A builder that is building certain aggregates and keeps what building anew gives. -/
structure Ready (info : Info) (building : List Nat) (b : Builder) : Prop where
  building_eq : b.building = building
  /-- What is being built is an aggregate with its members. -/
  entries : ∀ offset ∈ building,
    ∃ d ∈ info.dies, d.offset = offset ∧ d.isAggregate = true ∧ d.isDeclaration = false
  valid : Table.Valid info b.built
  apart : Table.Apart b.built building

theorem ready_fresh (info : Info) : Ready info [] .fresh := ⟨rfl, nofun, nofun, nofun⟩

/-- An aggregate that is not kept may begin to be built. -/
theorem Ready.begin {b : Builder} {d : Die} (hb : Ready info building b) (hd : d ∈ info.dies)
    (hagg : d.isAggregate = true) (hdef : d.isDeclaration = false)
    (hnew : ∀ e ∈ b.built, e.1 ≠ d.offset) :
    Ready info (d.offset :: building) { b with building := d.offset :: b.building } where
  building_eq := congrArg _ hb.building_eq
  entries := List.forall_mem_cons.mpr ⟨⟨d, hd, rfl, hagg, hdef⟩, hb.entries⟩
  valid := hb.valid
  apart := hb.apart.begin hnew

/-- With what the builder `b` keeps, `x` comes out as `z` does, which uses nothing that is kept, and
returns what satisfies `R`.  With what is kept after that, `z` comes out the same while any other
aggregates are being built, except for those at the offsets `own`, which `x` builds itself. -/
structure Retold (info : Info) (building own : List Nat) (b : Builder) (x : BuildM α)
    (z : Nat → BuildM α) (R : α → Prop) : Prop where
  ready : Ready info building (x.run b).2
  grows : b.built ⊆ (x.run b).2.built
  comes : ComesTo z building (x.run b).1
  anywhere : ∀ a, (x.run b).1 = .ok a → ∀ building', Table.Apart (x.run b).2.built building' →
    (∀ offset ∈ own, offset ∉ building') → ComesTo z building' (.ok a)
  ends : (x.run b).1 ≠ .error .endlessReference
  returns : ∀ a, (x.run b).1 = .ok a → R a

/-- Every builder that is building these aggregates, and keeps nothing at the offsets `own`, retells
`z` by `x`. -/
def Retells (info : Info) (building own : List Nat) (x : BuildM α) (z : Nat → BuildM α)
    (R : α → Prop) : Prop :=
  ∀ b, Ready info building b → (∀ offset ∈ own, ∀ e ∈ b.built, e.1 ≠ offset) →
    Retold info building own b x z R

namespace Retold

variable {own : List Nat} {b : Builder} {x x' : BuildM α} {z z' : Nat → BuildM α} {a : α}
  {R R' : α → Prop} {f : α → BuildM β} {g : Nat → α → BuildM β} {S : α → β → Prop}

/-- Returning a value that `z` comes to wherever what is kept may be used. -/
theorem of_comesTo (hb : Ready info building b)
    (hz : ∀ building', Table.Apart b.built building' → ComesTo z building' (.ok a)) (h : R a) :
    Retold info building own b (pure a) z R where
  ready := hb
  grows := List.Subset.refl _
  comes := hz building hb.apart
  anywhere := by
    rintro _ ⟨⟩ building' hapart -
    exact hz building' hapart
  ends := nofun
  returns := by
    rintro _ ⟨⟩
    exact h

/-- A failure that `z` comes to. -/
theorem of_error (hb : Ready info building b) {e : Failure} (hx : x.run b = (.error e, b))
    (hz : ComesTo z building (.error e)) (he : e ≠ .endlessReference) :
    Retold info building own b x z R := by
  constructor <;> rw [hx]
  · exact hb
  · exact List.Subset.refl _
  · exact hz
  · exact nofun
  · exact fun h => he (Except.error.inj h)
  · exact nofun

/-- What a computation builds itself is known to those around it. -/
theorem weaken (h : Retold info building [] b x z R) : Retold info building own b x z R where
  ready := h.ready
  grows := h.grows
  comes := h.comes
  anywhere := fun a ha building' hapart _ => h.anywhere a ha building' hapart nofun
  ends := h.ends
  returns := h.returns

theorem mono (h : Retold info building own b x z R) (hR : ∀ a, R a → R' a) :
    Retold info building own b x z R' where
  ready := h.ready
  grows := h.grows
  comes := h.comes
  anywhere := h.anywhere
  ends := h.ends
  returns a ha := hR a (h.returns a ha)

/-- All that matters is how `x` runs with `b`, and what `z` comes to. -/
theorem congr (h : Retold info building own b x z R) (hx : x'.run b = x.run b)
    (hz : ∀ building' o, (∀ offset ∈ own, offset ∉ building') → ComesTo z building' o →
      ComesTo z' building' o)
    (hown : ∀ offset ∈ own, offset ∉ building) : Retold info building own b x' z' R where
  ready := hx ▸ h.ready
  grows := hx ▸ h.grows
  comes := hz building _ hown (hx ▸ h.comes)
  anywhere := by
    intro a ha building' hapart hnew
    rw [hx] at ha hapart
    exact hz building' _ hnew (h.anywhere a ha building' hapart hnew)
  ends := hx ▸ h.ends
  returns := hx ▸ h.returns

theorem bind (hx : Retold info building own b x z R)
    (hf : ∀ a, (x.run b).1 = .ok a → R a →
      Retold info building own (x.run b).2 (f a) (fun depth => g depth a) (S a)) :
    Retold info building own b (x >>= f) (fun depth => z depth >>= g depth)
      fun c => ∃ a, R a ∧ S a c := by
  obtain ⟨hready, hgrows, hcomes, hanywhere, hends, hreturns⟩ := hx
  generalize hrun : x.run b = out at hf hready hgrows hcomes hanywhere hends hreturns
  obtain ⟨e | a, b'⟩ := out
  · have hbind : (x >>= f).run b = (.error e, b') := by rw [BuildM.run_bind, hrun]
    constructor <;> rw [hbind]
    · exact hready
    · exact hgrows
    · exact hcomes.bind_error
    · exact nofun
    · exact fun h => hends (congrArg _ (Except.error.inj h))
    · exact nofun
  · have hbind : (x >>= f).run b = (f a).run b' := by rw [BuildM.run_bind, hrun]
    have ha := hreturns a rfl
    have hf := hf a rfl ha
    constructor <;> rw [hbind]
    · exact hf.ready
    · exact List.Subset.trans hgrows hf.grows
    · exact hcomes.bind hf.comes
    · intro c hc building' hapart hown
      -- What was kept after `x` is still kept, so `z` comes to the same value.
      refine (hanywhere a rfl building' (hapart.mono hf.grows) hown).bind ?_
      exact hf.anywhere c hc building' hapart hown
    · exact hf.ends
    · exact fun c hc => ⟨a, ha, hf.returns c hc⟩

/-- While an aggregate is being built it is not kept, and it is the one aggregate that must not be
being built already. -/
theorem whileBuilding {d : Die} (hb : Ready info building b) (hd : d ∈ info.dies)
    (hagg : d.isAggregate = true) (hdef : d.isDeclaration = false)
    (hnew : ∀ e ∈ b.built, e.1 ≠ d.offset) (hx : Retells info (d.offset :: building) [] x z R) :
    Retold info building [d.offset] b (whileBuilding d.offset x)
      (fun depth => whileBuilding d.offset (z depth)) R := by
  obtain ⟨hready, hgrows, hcomes, hanywhere, hends, hreturns⟩ :=
    hx _ (hb.begin hd hagg hdef hnew) nofun
  constructor <;> rw [BuildM.run_whileBuilding]
  · refine ⟨?_, hb.entries, hready.valid, hready.apart.of_cons⟩
    simp only [hready.building_eq, List.erase_cons_head]
  · exact hgrows
  · exact hcomes.whileBuilding
  · intro a ha building' hapart hown
    -- The aggregate itself was being built all the time, so it is not kept.
    have hapart' := Table.Apart.begin hapart hready.apart.ne
    exact (hanywhere a ha _ hapart' nofun).whileBuilding
  · exact hends
  · exact hreturns

/-- The type of an entry may be kept when the entry itself is not being built; then the entry is one
of those that must not be being built for what is kept to be used. -/
theorem keep {d : Die} {x : BuildM TypeNode} {R : TypeNode → Prop} (hd : d ∈ info.dies)
    (hself : info.canonical d = d)
    (hx : Retold info building [d.offset] b x (fun depth => buildAnewTo info (depth + 1) (some d)) R)
    (hnew : ∀ node, R node → d.offset ∉ building) :
    Retold info building [] b
      (do
        let node ← x
        modify fun b => { b with built := (d.offset, node) :: b.built }
        return node)
      (fun depth => buildAnewTo info depth (some d)) R := by
  obtain ⟨hready, hgrows, hcomes, hanywhere, hends, hreturns⟩ := hx
  generalize hrun : x.run b = out at hready hgrows hcomes hanywhere hends hreturns
  obtain ⟨e | node, b'⟩ := out
  · constructor <;> rw [BuildM.run_bind, hrun]
    · exact hready
    · exact hgrows
    · exact hcomes.of_succ
    · exact nofun
    · exact hends
    · exact nofun
  · have hcomes' : ∀ building', d.offset ∉ building' → Table.Apart b'.built building' →
        ComesTo (fun depth => buildAnewTo info depth (some d)) building' (.ok node) :=
      fun building' hout hapart =>
        (hanywhere node rfl building' hapart (List.forall_mem_singleton.mpr hout)).of_succ
    constructor <;> rw [BuildM.run_bind, hrun]
    · exact ⟨hready.building_eq, hready.entries, hready.valid.cons hd hself hcomes',
        Table.apart_cons_iff.mpr ⟨hnew node (hreturns node rfl), hready.apart⟩⟩
    · exact List.Subset.trans hgrows (List.subset_cons_self _ _)
    · exact hcomes.of_succ
    · rintro _ ⟨⟩ building' hapart -
      obtain ⟨hout, hapart⟩ := Table.apart_cons_iff.mp hapart
      exact hcomes' building' hout hapart
    · exact nofun
    · rintro _ ⟨⟩
      exact hreturns node rfl

end Retold

/-- An aggregate is not built while it is being built, and only then.  Building it anew finds that,
too. -/
theorem Retells.enter {x : BuildM α} {z : Nat → BuildM α} {R : α → Prop} {d : Die}
    (hd : d ∈ info.dies) (hagg : d.isAggregate = true) (hdef : d.isDeclaration = false)
    (hx : d.offset ∉ building → Retells info (d.offset :: building) [] x z R) :
    Retells info building [d.offset] (enter d x) (fun depth => enter d (z depth))
      fun a => d.offset ∉ building ∧ R a := by
  intro b hb hnew
  by_cases hmem : d.offset ∈ building
  · refine .of_error hb (run_enter_of_mem (hb.building_eq ▸ hmem)) ?_ nofun
    refine (ComesTo.throw (α := α) (.ofCause (.recordedCycle d.name?))).congr fun depth c hc => ?_
    exact run_enter_of_mem (hc ▸ hmem)
  · have hbuilt := Retold.whileBuilding hb hd hagg hdef (List.forall_mem_singleton.mp hnew) (hx hmem)
    refine (hbuilt.mono fun a ha => ⟨hmem, ha⟩).congr (run_enter_of_not_mem (hb.building_eq ▸ hmem))
      (fun building' o hown hz => hz.congr fun depth c hc => ?_) (List.forall_mem_singleton.mpr hmem)
    exact run_enter_of_not_mem (hc ▸ hown d.offset List.mem_cons_self)

/-- **A computation comes to what building anew comes to**: the rules for a builder that uses kept
types. -/
def retellingLogic (info : Info) : BuildLogic info where
  Tells := Retells info
  of_pure a _ hb _ := .of_comesTo hb (fun _ _ => .pure a) rfl
  throw he _ hb _ := .of_error hb rfl (.throw _) he
  bind hx hf b hb hnew :=
    (hx b hb hnew).bind fun a _ ha => (hf a ha _ (hx b hb hnew).ready nofun).weaken
  note message _ hb _ :=
    { ready := ⟨hb.building_eq, hb.entries, hb.valid, hb.apart⟩
      grows := List.Subset.refl _
      comes := .note message
      anywhere := fun _ _ _ _ _ => .note message
      ends := nofun
      returns := fun _ _ => trivial }
  enter hd hagg hdef hx := .enter hd hagg hdef hx
  weaken h b hb _ := (h b hb nofun).weaken
  congr hR h b hb hnew := (h b hb hnew).mono fun a => (hR a).mp

end RecordLayout.Dwarf
