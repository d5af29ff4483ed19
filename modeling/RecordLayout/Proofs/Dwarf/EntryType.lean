import Mathlib.Order.Monotone.Basic
import RecordLayout.Proofs.Dwarf.Memory

/-!
# The type of an entry

A type follows from an entry and the types that the entry refers to.  The types that follow in
finitely many steps are those that a builder returns, whatever it has been asked for before: what it
keeps, what it is building and how deep it goes do not show in what it returns.  This needs nothing
of the entries but that offsets identify them.  Chains of references that run in a circle may be
among them; no type follows from these, and a builder returns none.

A derivation of a type has a height.  Heights go down along a derivation, so an aggregate that is
being built is not met again inside of itself; and heights above the number of entries bring no new
types, so a builder need not go deeper than that.

## Main definitions

* `Info.HasTypeWithin` says that a type follows from an entry by a derivation of some height, and
  `Info.HasType` that it follows from it;
* `Returns` says that a computation returns a value from every builder of a kind;
* `Builder.IsIdle` is what all builders are between two calls.

## Main results

* `Info.HasType.unique`: an entry has one type at most;
* `Info.HasType.withinLength`: heights up to the number of entries are enough;
* `returningLogic`: computations that return what is built keep to the rules of builders;
* `returns_buildTo`: the type of an entry is returned at every depth that is not below its height;
* `Builder.IsIdle.replay`: builders are idle between calls;
* `run_build_eq_ok_iff`: a builder returns the types of entries, and all of them.
-/

namespace RecordLayout.Dwarf

variable {info : Info} {K K' : Option Die → TypeNode → Prop} {Q : Die → TypeNode → Prop}
  {d : Die} {od : Option Die} {node : TypeNode} {α β : Type}

/-! ## One entry -/

theorem BuiltMember.mono {c : Die} {x : Member}
    (hK : ∀ n, K (info.typeOf? c) n → K' (info.typeOf? c) n) (h : BuiltMember info K c x) :
    BuiltMember info K' c x := by
  cases h with
  | plain known bits => exact .plain (hK _ known) bits
  | bitfield known bits => exact .bitfield (hK _ known) bits

/-- What is built for an entry depends on the types that it refers to. -/
theorem BuiltEntry.mono (hK : ∀ c n, K (info.typeOf? c) n → K' (info.typeOf? c) n)
    (h : BuiltEntry info K d node) : BuiltEntry info K' d node := by
  cases h with
  | through tag known => exact .through tag (hK _ _ known)
  | base tag => exact .base tag
  | enumeration tag => exact .enumeration tag
  | pointer tag => exact .pointer tag
  | array tag known array_eq => exact .array tag (hK _ _ known) array_eq
  | declared tag declaration => exact .declared tag declaration
  | aggregate tag definition members_built =>
    exact .aggregate tag definition (members_built.imp fun c _ h => h.mono (hK c))
  | other tag aggregate scalar pointer array => exact .other tag aggregate scalar pointer array

/-! ## Computations that return -/

/-- From every builder that keeps types with `Q` only and is building certain aggregates, `x`
returns `a` and leaves such a builder. -/
def Returns (info : Info) (Q : Die → TypeNode → Prop) (building : List Nat) (x : BuildM α) (a : α) :
    Prop :=
  ∀ b : Builder, b.Sound info Q → b.building = building →
    ∃ b', x.run b = (.ok a, b') ∧ b'.Sound info Q ∧ b'.building = building

namespace Returns

variable {building : List Nat} {x : BuildM α} {f : α → BuildM β} {a : α} {c : β}

theorem pure (a : α) : Returns info Q building (pure a) a := fun b hb hbuilding =>
  ⟨b, rfl, hb, hbuilding⟩

theorem note (message : String) : Returns info Q building (note message) () :=
  fun _ hb hbuilding => ⟨_, rfl, hb, hbuilding⟩

theorem bind (hx : Returns info Q building x a) (hf : Returns info Q building (f a) c) :
    Returns info Q building (x >>= f) c := by
  intro b hb hbuilding
  obtain ⟨b₁, hrun, hb₁, hbuilding₁⟩ := hx b hb hbuilding
  obtain ⟨b₂, hrun₂, hb₂, hbuilding₂⟩ := hf b₁ hb₁ hbuilding₁
  refine ⟨b₂, ?_, hb₂, hbuilding₂⟩
  rw [BuildM.run_bind, hrun]
  exact hrun₂

theorem whileBuilding {offset : Nat} (hx : Returns info Q (offset :: building) x a) :
    Returns info Q building (whileBuilding offset x) a := by
  intro b hb hbuilding
  obtain ⟨b', hrun, hb', hbuilding'⟩ :=
    hx { b with building := offset :: b.building } hb (congrArg _ hbuilding)
  refine ⟨{ b' with building := b'.building.erase offset }, ?_, hb', ?_⟩
  · rw [BuildM.run_whileBuilding, hrun]
  · show b'.building.erase offset = building
    rw [hbuilding', List.erase_cons_head]

theorem enter (hx : Returns info Q (d.offset :: building) x a) (hnew : d.offset ∉ building) :
    Returns info Q building (enter d x) a := by
  intro b hb hbuilding
  rw [run_enter_of_not_mem (hbuilding ▸ hnew)]
  exact hx.whileBuilding b hb hbuilding

/-- A type with the property may be kept. -/
theorem keep (hd : d ∈ info.dies) (h : Q d node) :
    Returns info Q building
      (modify fun b => { b with built := (d.offset, node) :: b.built } : BuildM Unit) () :=
  fun b hb hbuilding => ⟨_, rfl, (Built.keep hd h b hb hbuilding).1, hbuilding⟩

end Returns

/-- **What is built is returned**: the rules for computations that return all that they may. -/
def returningLogic (info : Info) (Q : Die → TypeNode → Prop) : BuildLogic info where
  Tells building _ x _ R := ∀ a, R a → Returns info Q building x a
  of_pure := by
    rintro _ _ _ _ _ rfl
    exact .pure _
  throw _ := nofun
  bind hx hf c := by
    rintro ⟨a, ha, hc⟩
    exact (hx a ha).bind (hf a ha c hc)
  note message _ _ := .note message
  enter _ _ _ h a ha := (h ha.1 a ha.2).enter ha.1
  weaken h := h
  congr hR h a ha := h a ((hR a).mpr ha)

/-! ## Derivations -/

/-- A type follows from an entry, or from its absence, by a derivation of at most a height. -/
def Info.HasTypeWithin (info : Info) : Nat → Option Die → TypeNode → Prop
  | _, none, node => node = .incomplete (.name "void")
  | 0, some _, _ => False
  | height + 1, some d, node =>
    BuiltEntry info (info.HasTypeWithin height) (info.canonical d) node

/-- A type follows from an entry, or from its absence. -/
def Info.HasType (info : Info) (od : Option Die) (node : TypeNode) : Prop :=
  ∃ height, info.HasTypeWithin height od node

namespace Info

variable {height height' : Nat} {node' : TypeNode}

theorem hasTypeWithin_none : info.HasTypeWithin height none node ↔
    node = .incomplete (.name "void") := by
  cases height <;> rfl

theorem hasTypeWithin_succ : info.HasTypeWithin (height + 1) (some d) node ↔
    BuiltEntry info (info.HasTypeWithin height) (info.canonical d) node := Iff.rfl

theorem hasTypeWithin_canonical : info.HasTypeWithin height (some (info.canonical d)) node ↔
    info.HasTypeWithin height (some d) node := by
  cases height with
  | zero => rfl
  | succ height => rw [hasTypeWithin_succ, hasTypeWithin_succ, info.canonical_canonical]

theorem HasTypeWithin.succ (h : info.HasTypeWithin height od node) :
    info.HasTypeWithin (height + 1) od node := by
  induction height generalizing od node with
  | zero =>
    cases od with
    | none => exact h
    | some d => exact h.elim
  | succ height ih =>
    cases od with
    | none => exact h
    | some d => exact BuiltEntry.mono (fun _ _ => ih) h

theorem HasTypeWithin.mono (h : info.HasTypeWithin height od node) (hle : height ≤ height') :
    info.HasTypeWithin height' od node := by
  induction hle with
  | refl => exact h
  | step _ ih => exact ih.succ

/-- The types that one entry refers to follow within one height. -/
theorem exists_hasTypeWithin_of_forall₂ {cs : List Die} {xs : List Member}
    (h : List.Forall₂ (BuiltMember info info.HasType) cs xs) :
    ∃ height, List.Forall₂ (BuiltMember info (info.HasTypeWithin height)) cs xs := by
  induction h with
  | nil => exact ⟨0, .nil⟩
  | @cons c x cs xs hx _ ih =>
    obtain ⟨rest, hrest⟩ := ih
    obtain ⟨height, hheight⟩ : ∃ height, BuiltMember info (info.HasTypeWithin height) c x := by
      cases hx with
      | plain known bits =>
        obtain ⟨height, hknown⟩ := known
        exact ⟨height, .plain hknown bits⟩
      | bitfield known bits =>
        obtain ⟨height, hknown⟩ := known
        exact ⟨height, .bitfield hknown bits⟩
    refine ⟨max height rest, .cons ?_ (hrest.imp fun c' x' h => ?_)⟩
    · exact hheight.mono fun n hn => hn.mono (Nat.le_max_left _ _)
    · exact h.mono fun n hn => hn.mono (Nat.le_max_right _ _)

/-- **The type of an entry follows** from the types that the entry refers to. -/
theorem HasType.of_builtEntry (h : BuiltEntry info info.HasType (info.canonical d) node) :
    info.HasType (some d) node := by
  obtain ⟨height, hheight⟩ :
      ∃ height, BuiltEntry info (info.HasTypeWithin height) (info.canonical d) node := by
    generalize info.canonical d = d at h
    cases h with
    | through tag known =>
      obtain ⟨height, hknown⟩ := known
      exact ⟨height, .through tag hknown⟩
    | array tag known array_eq =>
      obtain ⟨height, hknown⟩ := known
      exact ⟨height, .array tag hknown array_eq⟩
    | aggregate tag definition members_built =>
      obtain ⟨height, hmembers⟩ := exists_hasTypeWithin_of_forall₂ members_built
      exact ⟨height, .aggregate tag definition hmembers⟩
    | base tag => exact ⟨0, .base tag⟩
    | enumeration tag => exact ⟨0, .enumeration tag⟩
    | pointer tag => exact ⟨0, .pointer tag⟩
    | declared tag declaration => exact ⟨0, .declared tag declaration⟩
    | other tag aggregate scalar pointer array =>
      exact ⟨0, .other tag aggregate scalar pointer array⟩
  exact ⟨height + 1, hheight⟩

/-- The type of an entry follows from nothing else. -/
theorem HasType.builtEntry (h : info.HasType (some d) node) :
    BuiltEntry info info.HasType (info.canonical d) node := by
  obtain ⟨height, hheight⟩ := h
  cases height with
  | zero => exact hheight.elim
  | succ height => exact BuiltEntry.mono (fun _ _ hn => ⟨height, hn⟩) hheight

theorem hasType_canonical : info.HasType (some (info.canonical d)) node ↔
    info.HasType (some d) node :=
  exists_congr fun _ => hasTypeWithin_canonical

theorem HasTypeWithin.unique (h : info.HasTypeWithin height od node)
    (h' : info.HasTypeWithin height od node') : node = node' := by
  induction height generalizing od node node' with
  | zero =>
    cases od with
    | none => exact h.trans h'.symm
    | some d => exact h.elim
  | succ height ih =>
    cases od with
    | none => exact h.trans h'.symm
    | some d => exact BuiltEntry.unique (fun _ _ _ => ih) h h'

/-- **An entry has one type at most.** -/
theorem HasType.unique (h : info.HasType od node) (h' : info.HasType od node') : node = node' := by
  obtain ⟨m, hm⟩ := h
  obtain ⟨n, hn⟩ := h'
  exact (hm.mono (Nat.le_max_left m n)).unique (hn.mono (Nat.le_max_right m n))

/-- An entry has a type within a height. -/
def IsTyped (info : Info) (height : Nat) (d : Die) : Prop :=
  ∃ node, info.HasTypeWithin height (some d) node

theorem IsTyped.mono (h : info.IsTyped height d) (hle : height ≤ height') :
    info.IsTyped height' d := by
  obtain ⟨node, hnode⟩ := h
  exact ⟨node, hnode.mono hle⟩

/-- A type that follows is found at every height at which there is one. -/
theorem IsTyped.hasTypeWithin (h : info.IsTyped height d)
    (hnode : info.HasTypeWithin height' (some d) node) :
    info.HasTypeWithin height (some d) node := by
  obtain ⟨node', hnode'⟩ := h
  have hsame : node' = node := HasType.unique ⟨height, hnode'⟩ ⟨height', hnode⟩
  exact hsame ▸ hnode'

theorem count_mono {P R : Die → Prop} (hPR : ∀ d, P d → R d) : info.count P ≤ info.count R := by
  have hle : info.count P + info.count (fun _ => False) ≤ info.count R :=
    count_add_count_le (fun _ _ h => h) hPR nofun
  omega

/-- What two properties count alike is the same, when one property implies the other. -/
theorem of_count_eq {P R : Die → Prop} (hPR : ∀ d, P d → R d) (hcount : info.count P = info.count R)
    (hd : d ∈ info.dies) (h : R d) : P d := by
  by_contra hnot
  have hpos : 0 < info.count fun d => R d ∧ ¬ P d := count_pos hd ⟨h, hnot⟩
  have hle : info.count P + info.count (fun d => R d ∧ ¬ P d) ≤ info.count R :=
    count_add_count_le (fun d hP hR => hR.2 hP) hPR fun d hR => hR.1
  omega

/-- Once a height brings no type that was not there before, no height does. -/
theorem isTyped_succ_of_count_eq
    (hcount : info.count (info.IsTyped height) = info.count (info.IsTyped (height + 1)))
    (h : info.IsTyped (height + 2) d) : info.IsTyped (height + 1) d := by
  obtain ⟨node, hnode⟩ := h
  refine ⟨node, BuiltEntry.mono (fun c n hn => ?_) (hasTypeWithin_succ.mp hnode)⟩
  cases htype : info.typeOf? c with
  | none =>
    rw [htype] at hn
    exact hasTypeWithin_none.mpr (hasTypeWithin_none.mp hn)
  | some e =>
    rw [htype] at hn
    have he : info.IsTyped height e :=
      of_count_eq (fun _ h => h.mono (Nat.le_succ _)) hcount (mem_of_typeOf? htype) ⟨n, hn⟩
    exact he.hasTypeWithin hn

/-- **Heights up to the number of entries are enough.** -/
theorem HasType.withinLength (h : info.HasType od node) (hod : ∀ d ∈ od, d ∈ info.dies) :
    info.HasTypeWithin info.dies.length od node := by
  obtain ⟨height, hheight⟩ := h
  cases od with
  | none => exact hasTypeWithin_none.mpr (hasTypeWithin_none.mp hheight)
  | some d =>
    -- The number of entries with a type grows with the height until it stays.
    have hmono : Monotone fun height => info.count (info.IsTyped height) :=
      fun _ _ hle => count_mono fun _ h => h.mono hle
    have hstays := Nat.stabilises_of_monotone (n := max height info.dies.length) hmono
      (fun height => count_le_length _)
      (fun height hcount => le_antisymm (hmono (Nat.le_succ _)) ?_) (Nat.le_max_right _ _)
    · have htyped : info.IsTyped info.dies.length d :=
        of_count_eq (fun _ h => h.mono (Nat.le_max_right height _)) hstays.symm (hod d rfl)
          ⟨node, hheight.mono (Nat.le_max_left _ _)⟩
      exact htyped.hasTypeWithin hheight
    · exact count_mono fun _ h => isTyped_succ_of_count_eq hcount h

end Info

/-! ## All entries -/

section All

variable {building : List Nat} {height depth : Nat}

theorem hasType_of_known (h : info.Known (fun d => info.HasType (some d)) od node) :
    info.HasType od node := by
  cases od with
  | none => exact ⟨0, h⟩
  | some d => exact Info.hasType_canonical.mp h

/-- What is built for an entry that stands for itself is its type, when the types that it refers to
are known. -/
theorem hasType_of_builtEntry (hself : info.canonical d = d)
    (h : BuiltEntry info (info.Known fun d => info.HasType (some d)) d node) :
    info.HasType (some d) node := by
  apply Info.HasType.of_builtEntry
  rw [hself]
  exact h.mono fun _ _ => hasType_of_known

variable (hoffsets : (info.dies.map (·.offset)).Nodup)

include hoffsets

/-- A type that is returned when it is built from other types is returned when it was kept, too. -/
theorem returns_buildTo_of_buildEntry (hd : d ∈ info.dies) (htype : info.HasType (some d) node)
    (hentry : Returns info (fun d => info.HasType (some d)) building
      (buildEntry info (buildTo info depth) (info.canonical d)) node) :
    Returns info (fun d => info.HasType (some d)) building (buildTo info (depth + 1) (some d))
      node := by
  have hmem : info.canonical d ∈ info.dies := Info.canonical_mem hd
  have hself : info.HasType (some (info.canonical d)) node := Info.hasType_canonical.mpr htype
  intro b hb hbuilding
  cases hfind : b.find? (info.canonical d).offset with
  | some node' =>
    rw [run_buildTo_of_find? hfind]
    obtain ⟨d', hd', hoffset, hkept⟩ := hb _ (Builder.mem_of_find? hfind)
    obtain rfl : d' = info.canonical d := List.inj_on_of_nodup_map hoffsets hd' hmem hoffset
    obtain rfl := hkept.unique hself
    exact ⟨b, rfl, hb, hbuilding⟩
  | none =>
    rw [run_buildTo_of_find?_eq_none hfind]
    refine (?_ : Returns info _ building _ _) b hb hbuilding
    exact hentry.bind ((Returns.keep hmem hself).bind (.pure node))

/-- **The type of an entry is returned** at every depth that is not below its height, as long as no
aggregate that is being built has a type of that height. -/
theorem returns_buildTo (hod : ∀ d ∈ od, d ∈ info.dies) (htype : info.HasTypeWithin height od node)
    (hdepth : height ≤ depth)
    (hbuilding : ∀ e ∈ info.dies, e.offset ∈ building → ¬ info.IsTyped height e) :
    Returns info (fun d => info.HasType (some d)) building (buildTo info depth od) node := by
  induction height generalizing od node building depth with
  | zero =>
    cases od with
    | none =>
      obtain rfl := Info.hasTypeWithin_none.mp htype
      cases depth <;> exact .pure _
    | some d => exact htype.elim
  | succ height ih =>
    cases od with
    | none =>
      obtain rfl := Info.hasTypeWithin_none.mp htype
      cases depth <;> exact .pure _
    | some d =>
      have hlow : ∀ e ∈ info.dies, e.offset ∈ building → ¬ info.IsTyped height e :=
        fun e he hmem h => hbuilding e he hmem (h.mono (Nat.le_succ height))
      by_cases hlower : info.IsTyped height d
      · exact ih hod (hlower.hasTypeWithin htype) (Nat.le_of_succ_le hdepth) hlow
      · obtain ⟨depth, rfl⟩ := Nat.exists_eq_add_of_le' (Nat.one_le_of_lt hdepth)
        have hmem : info.canonical d ∈ info.dies := Info.canonical_mem (hod d rfl)
        have hnew : (info.canonical d).offset ∉ building := fun h =>
          hbuilding _ hmem h ⟨node, Info.hasTypeWithin_canonical.mpr htype⟩
        -- The entry has no type of the height of its parts, so none of them leads back to it.
        have hwithin : ∀ e ∈ info.dies, e.offset ∈ (info.canonical d).offset :: building →
            ¬ info.IsTyped height e := by
          intro e he hoffset h
          rcases List.mem_cons.mp hoffset with hoffset | hoffset
          · obtain rfl := List.inj_on_of_nodup_map hoffsets he hmem hoffset
            obtain ⟨n, hn⟩ := h
            exact hlower ⟨n, Info.hasTypeWithin_canonical.mp hn⟩
          · exact hlow e he hoffset h
        have hpart (within : List Nat) (c : Die) (n : TypeNode)
            (hwithin : ∀ e ∈ info.dies, e.offset ∈ within → ¬ info.IsTyped height e)
            (hn : info.HasTypeWithin height (info.typeOf? c) n) :
            Returns info (fun d => info.HasType (some d)) within
              (buildTo info depth (info.typeOf? c)) n :=
          ih (fun _ => Info.mem_of_typeOf?) hn (Nat.le_of_succ_le_succ hdepth) hwithin
        have hentry := (returningLogic info fun d => info.HasType (some d)).tells_buildEntry
          (g := fun _ => buildTo info depth) hmem
          (fun _ n => hpart building (info.canonical d) n hlow)
          (fun _ _ c _ _ n => hpart _ c n hwithin) node ⟨htype, fun _ _ => hnew⟩
        exact returns_buildTo_of_buildEntry hoffsets (hod d rfl) ⟨height + 1, htype⟩ hentry

end All

/-! ## Builders between two calls -/

/-- What all builders are between two calls: they keep types of entries, and are building
nothing. -/
structure Builder.IsIdle (info : Info) (b : Builder) : Prop where
  sound : b.Sound info fun d => info.HasType (some d)
  building_eq : b.building = []

theorem Builder.isIdle_fresh : Builder.fresh.IsIdle info := ⟨Builder.sound_fresh, rfl⟩

section Calls

variable {b : Builder} (hoffsets : (info.dies.map (·.offset)).Nodup)

include hoffsets

/-- **What a builder returns is the type of the entry**, and it stays sound. -/
theorem built_hasType (depth : Nat) (hod : ∀ d ∈ od, d ∈ info.dies) (building : List Nat) :
    Built info (fun d => info.HasType (some d)) building (buildTo info depth od)
      (info.HasType od) := by
  have hbuilt := built_buildTo (Q := fun d => info.HasType (some d))
    (fun _ _ hself _ h => hasType_of_builtEntry hself h) (Info.of_offset_eq hoffsets) depth hod
    building
  exact hbuilt.mono fun node => hasType_of_known

theorem Builder.IsIdle.build (hb : b.IsIdle info) (hod : ∀ d ∈ od, d ∈ info.dies) :
    Builder.IsIdle info ((Dwarf.build info od).run b).2 := by
  have hbuilt := built_hasType hoffsets (depthBound info) hod [] b hb.sound hb.building_eq
  exact ⟨hbuilt.1, hbuilt.2.1⟩

theorem Builder.IsIdle.after (hb : b.IsIdle info) {call : Builder.Call}
    (hcall : call.IsAbout info) : (b.after info call).IsIdle info := by
  cases call with
  | build d => exact hb.build hoffsets hcall
  | findRoot typeName => simpa [Builder.after] using hb
  | buildType typeName =>
    simp only [Builder.after, buildType, BuildM.run_bind, BuildM.run_check]
    cases hroot : info.findRoot typeName with
    | error e => exact hb
    | ok root =>
      have hmem := Info.canonical_mem (Info.aggregate_of_findRoot hroot).1
      have hbuilt := hb.build hoffsets (Info.forall_mem_some hmem)
      dsimp only
      generalize (Dwarf.build info (some (info.canonical root))).run b = out at hbuilt ⊢
      rcases out with ⟨e | node, b'⟩
      · exact hbuilt
      · cases expectedMembers info (info.canonical root) <;> exact hbuilt

/-- **Builders are idle between calls**, whichever calls have been made and whether they failed. -/
theorem Builder.IsIdle.replay (hb : b.IsIdle info) {calls : List Builder.Call}
    (hcalls : ∀ call ∈ calls, call.IsAbout info) : (b.replay info calls).IsIdle info :=
  List.foldlRecOn calls (Builder.after info) hb fun _ hb call hcall =>
    hb.after hoffsets (hcalls call hcall)

/-- The type of an entry is returned at every depth that is not below the number of entries. -/
theorem Info.HasType.returns (h : info.HasType od node) (hod : ∀ d ∈ od, d ∈ info.dies)
    {depth : Nat} (hdepth : info.dies.length ≤ depth) :
    Returns info (fun d => info.HasType (some d)) [] (buildTo info depth od) node :=
  returns_buildTo hoffsets hod (h.withinLength hod) hdepth fun _ _ hmem =>
    absurd hmem List.not_mem_nil

/-- **A builder returns the types of entries, and all of them**, whatever it has been asked for
before. -/
theorem run_build_eq_ok_iff {calls : List Builder.Call} (hcalls : ∀ call ∈ calls, call.IsAbout info)
    (hod : ∀ d ∈ od, d ∈ info.dies) :
    ((build info od).run (Builder.fresh.replay info calls)).1 = .ok node ↔
      info.HasType od node := by
  have hidle := Builder.isIdle_fresh.replay hoffsets hcalls
  constructor
  · intro h
    exact (built_hasType hoffsets _ hod [] _ hidle.sound hidle.building_eq).2.2 node h
  · intro h
    have hdepth : info.dies.length ≤ depthBound info := by
      unfold depthBound
      omega
    obtain ⟨b, hrun, -⟩ := h.returns hoffsets hod hdepth _ hidle.sound hidle.building_eq
    rw [build, hrun]

end Calls

end RecordLayout.Dwarf
