import Mathlib.Data.List.Forall2
import Mathlib.Tactic.SplitIfs
import RecordLayout.Proofs.Dwarf.Aliases
import RecordLayout.Proofs.Outcome

/-!
# What is built for one entry

A builder follows the references of entries and keeps what it has built by offset, so an answer may
stem from an earlier question.  This module says once what the type built for an entry can be, given
what is known of the types that the entry refers to (`BuiltEntry`), and goes over the code for one
entry once.

What is to be shown of the code differs: that nothing else is returned, that all of it is returned,
or that a computation comes to what another one comes to.  Each of these keeps to the same rules for
a value, a failure, a note, a chain of computations and an aggregate that begins to be built
(`BuildLogic`).  The rules say exactly what a computation may return, so that they serve both
directions.

## Main definitions

* `BuiltEntry` and `BuiltMember` say what is built for an entry;
* `enter` begins to build an aggregate;
* `BuildLogic` has the rules of a way to reason about builders.

## Main results

* `builtEntry_iff`: what is built for an entry, tag by tag;
* `BuiltEntry.unique`: it is determined by the types that the entry refers to;
* `BuildLogic.tells_buildEntry`: the code for one entry.
-/

namespace RecordLayout.Dwarf

/-! ## One entry -/

/-- The aggregate that an entry with these members describes. -/
abbrev aggregateOf (d : Die) (members : List Member) : Aggregate where
  kind := aggregateKindOf d.tag
  members := members
  name := d.name?
  pack := none
  attributes := attributesOf d
  origin := .recorded d.offset

section Entries

variable (info : Info) (K : Option Die → TypeNode → Prop)

/-- What is built for a member, where `K` is known of the type that it refers to. -/
inductive BuiltMember (c : Die) : Member → Prop
  | plain {type : TypeNode} (known : K (info.typeOf? c) type)
      (bits : c.attributeQuantity? "DW_AT_bit_size" = none) :
      BuiltMember c ⟨type, c.name?, attributesOf c⟩
  | bitfield {base : Primitive} {width : Quantity} (known : K (info.typeOf? c) (.primitive base))
      (bits : c.attributeQuantity? "DW_AT_bit_size" = some width) :
      BuiltMember c ⟨.bitfield base width.constant, c.name?, attributesOf c⟩

/-- What is built for an entry, where `K` is known of the types that it refers to. -/
inductive BuiltEntry (d : Die) : TypeNode → Prop
  | through {node : TypeNode} (tag : isAliasTag d.tag = true)
      (known : K (info.typeOf? d) node) : BuiltEntry d node
  | base (tag : d.tag = baseTag) : BuiltEntry d (scalarOf (d.name?.getD "void") d)
  | enumeration (tag : d.tag = enumerationTag) :
      BuiltEntry d (scalarOf ("enum " ++ d.name?.getD "<anonymous>") d)
  | pointer (tag : isPointerTag d.tag = true) : BuiltEntry d (pointerOf d)
  | array {element node : TypeNode} (tag : d.tag = arrayTag) (known : K (info.typeOf? d) element)
      (array_eq : arrayOf d element = .ok node) : BuiltEntry d node
  | declared (tag : d.isAggregate = true) (declaration : d.isDeclaration = true) :
      BuiltEntry d (.incomplete (.name (declaredName d)))
  | aggregate {members : List Member} (tag : d.isAggregate = true)
      (definition : d.isDeclaration = false)
      (members_built : List.Forall₂ (BuiltMember info K) (d.children.filter Die.isMember) members) :
      BuiltEntry d (.aggregate (aggregateOf d members))
  | other (tag : isAliasTag d.tag = false) (aggregate : d.isAggregate = false)
      (scalar : d.tag ≠ baseTag ∧ d.tag ≠ enumerationTag) (pointer : isPointerTag d.tag = false)
      (array : d.tag ≠ arrayTag) :
      BuiltEntry d (.incomplete ((d.name?.map Label.name).getD d.tag))

end Entries

variable {info : Info} {K : Option Die → TypeNode → Prop} {d : Die} {node : TypeNode}

/-- A tag is of one sort only; the sorts are asked for in this order. -/
theorem sort_of_tag :
    (∀ tag ∈ pointerTags, isAliasTag tag = false ∧ tag ≠ baseTag ∧ tag ≠ enumerationTag) ∧
      ∀ tag ∈ [structTag, classTag, unionTag], isAliasTag tag = false ∧ tag ≠ baseTag ∧
        tag ≠ enumerationTag ∧ isPointerTag tag = false ∧ tag ≠ arrayTag := by
  decide

/-- **What is built for an entry**, tag by tag. -/
theorem builtEntry_iff : BuiltEntry info K d node ↔
    if isAliasTag d.tag = true then K (info.typeOf? d) node
    else if d.tag = baseTag then node = scalarOf (d.name?.getD "void") d
    else if d.tag = enumerationTag then node = scalarOf ("enum " ++ d.name?.getD "<anonymous>") d
    else if isPointerTag d.tag = true then node = pointerOf d
    else if d.tag = arrayTag then
      ∃ element, K (info.typeOf? d) element ∧ arrayOf d element = .ok node
    else if d.isAggregate = true then
      if d.isDeclaration = true then node = .incomplete (.name (declaredName d))
      else ∃ members, List.Forall₂ (BuiltMember info K) (d.children.filter Die.isMember) members ∧
        node = .aggregate (aggregateOf d members)
    else node = .incomplete ((d.name?.map Label.name).getD d.tag) := by
  constructor
  · intro h
    cases h with
    | through tag known => rwa [if_pos tag]
    | base tag => rw [tag, if_neg (by decide), if_pos rfl]
    | enumeration tag => rw [tag, if_neg (by decide), if_neg (by decide), if_pos rfl]
    | pointer tag =>
      obtain ⟨halias, hbase, henumeration⟩ := sort_of_tag.1 d.tag (List.contains_iff_mem.mp tag)
      simp [halias, hbase, henumeration, tag]
    | array tag known array_eq =>
      simp only [tag, if_pos]
      exact ⟨_, known, array_eq⟩
    | declared tag declaration =>
      obtain ⟨halias, hbase, henumeration, hpointer, harray⟩ :=
        sort_of_tag.2 d.tag (List.contains_iff_mem.mp tag)
      simp [halias, hbase, henumeration, hpointer, harray, tag, declaration]
    | aggregate tag definition members_built =>
      obtain ⟨halias, hbase, henumeration, hpointer, harray⟩ :=
        sort_of_tag.2 d.tag (List.contains_iff_mem.mp tag)
      simp only [halias, hbase, henumeration, hpointer, harray, tag, definition, if_pos, if_neg,
        Bool.false_eq_true, not_false_eq_true]
      exact ⟨_, members_built, rfl⟩
    | other tag aggregate scalar pointer array =>
      simp [tag, aggregate, scalar, pointer, array]
  · intro h
    split_ifs at h with halias hbase henumeration hpointer harray haggregate hdeclaration
    · exact .through halias h
    · exact h ▸ .base hbase
    · exact h ▸ .enumeration henumeration
    · exact h ▸ .pointer hpointer
    · obtain ⟨element, hknown, harray_eq⟩ := h
      exact .array harray hknown harray_eq
    · exact h ▸ .declared haggregate hdeclaration
    · obtain ⟨members, hmembers, rfl⟩ := h
      exact .aggregate haggregate (Bool.eq_false_iff.mpr hdeclaration) hmembers
    · exact h ▸ .other (Bool.eq_false_iff.mpr halias) (Bool.eq_false_iff.mpr haggregate)
        ⟨hbase, henumeration⟩ (Bool.eq_false_iff.mpr hpointer) harray

/-- **What is built for a member is determined** by the type that it refers to. -/
theorem BuiltMember.unique {c : Die} {x y : Member}
    (hK : ∀ m n, K (info.typeOf? c) m → K (info.typeOf? c) n → m = n) (h : BuiltMember info K c x)
    (h' : BuiltMember info K c y) : x = y := by
  cases h with
  | plain known bits =>
    cases h' with
    | plain known' bits' => rw [hK _ _ known known']
    | bitfield known' bits' => exact absurd (bits.symm.trans bits') nofun
  | bitfield known bits =>
    cases h' with
    | plain known' bits' => exact absurd (bits.symm.trans bits') nofun
    | bitfield known' bits' =>
      cases hK _ _ known known'
      cases bits.symm.trans bits'
      rfl

/-- **What is built for an entry is determined** by the types that it refers to. -/
theorem BuiltEntry.unique {node' : TypeNode}
    (hK : ∀ c m n, K (info.typeOf? c) m → K (info.typeOf? c) n → m = n)
    (h : BuiltEntry info K d node) (h' : BuiltEntry info K d node') : node = node' := by
  rw [builtEntry_iff] at h h'
  split_ifs at h h'
  · exact hK d _ _ h h'
  · rw [h, h']
  · rw [h, h']
  · rw [h, h']
  · obtain ⟨element, hknown, hnode⟩ := h
    obtain ⟨element', hknown', hnode'⟩ := h'
    obtain rfl := hK d _ _ hknown hknown'
    exact Except.ok.inj (hnode.symm.trans hnode')
  · rw [h, h']
  · obtain ⟨members, hmembers, rfl⟩ := h
    obtain ⟨members', hmembers', rfl⟩ := h'
    have hunique : Relator.RightUnique (BuiltMember info K) := fun c _ _ h h' => h.unique (hK c) h'
    rw [hunique.forall₂ hmembers hmembers']
  · rw [h, h']

theorem builtEntry_iff_of_alias (halias : isAliasTag d.tag = true) :
    BuiltEntry info K d node ↔ K (info.typeOf? d) node := by
  rw [builtEntry_iff, if_pos halias]

theorem builtEntry_iff_of_array (htag : d.tag = arrayTag) : BuiltEntry info K d node ↔
    ∃ element, K (info.typeOf? d) element ∧ arrayOf d element = .ok node := by
  have hother : isAliasTag arrayTag = false ∧ arrayTag ≠ baseTag ∧ arrayTag ≠ enumerationTag ∧
      isPointerTag arrayTag = false := by decide
  simp only [builtEntry_iff, htag, hother, Bool.false_eq_true, if_false, if_true]

theorem builtEntry_iff_of_declaration (hagg : d.isAggregate = true)
    (hdeclaration : d.isDeclaration = true) :
    BuiltEntry info K d node ↔ node = .incomplete (.name (declaredName d)) := by
  obtain ⟨halias, hbase, henumeration, hpointer, harray⟩ :=
    sort_of_tag.2 d.tag (List.contains_iff_mem.mp hagg)
  simp only [builtEntry_iff, halias, hbase, henumeration, hpointer, harray, hagg, hdeclaration,
    Bool.false_eq_true, if_false, if_true]

theorem builtEntry_iff_of_definition (hagg : d.isAggregate = true)
    (hdefinition : d.isDeclaration = false) : BuiltEntry info K d node ↔
      ∃ members, List.Forall₂ (BuiltMember info K) (d.children.filter Die.isMember) members ∧
        node = .aggregate (aggregateOf d members) := by
  obtain ⟨halias, hbase, henumeration, hpointer, harray⟩ :=
    sort_of_tag.2 d.tag (List.contains_iff_mem.mp hagg)
  simp only [builtEntry_iff, halias, hbase, henumeration, hpointer, harray, hagg, hdefinition,
    Bool.false_eq_true, if_false, if_true]

/-- The type of an aggregate is incomplete if its entry is only a declaration, and otherwise it has a
member for each member of the entry. -/
theorem BuiltEntry.aggregate_cases (h : BuiltEntry info K d node) (hagg : d.isAggregate = true) :
    d.isDeclaration = true ∧ node = .incomplete (.name (declaredName d)) ∨
      d.isDeclaration = false ∧ ∃ a : Aggregate, node = .aggregate a ∧ a.name = d.name? ∧
        a.origin = .recorded d.offset ∧
        List.Forall₂ (BuiltMember info K) (d.children.filter Die.isMember) a.members := by
  cases hdeclaration : d.isDeclaration with
  | true => exact .inl ⟨rfl, (builtEntry_iff_of_declaration hagg hdeclaration).mp h⟩
  | false =>
    obtain ⟨members, hmembers, rfl⟩ := (builtEntry_iff_of_definition hagg hdeclaration).mp h
    exact .inr ⟨rfl, _, rfl, rfl, rfl, hmembers⟩

theorem exists_addDimension (count : Quantity) (e : TypeNode) :
    ∃ n dims, addDimension count e = .array n dims := by
  cases e <;> exact ⟨_, _, rfl⟩

/-- What is built for an array is one, or an open-ended one. -/
theorem arrayOf_cases {d : Die} {element node : TypeNode} (h : arrayOf d element = .ok node) :
    (∃ n dims, node = .array n dims) ∨ ∃ n, node = .flexibleArray n := by
  unfold arrayOf at h
  split at h
  · exact .inr ⟨_, (Except.ok.inj h).symm⟩
  · split at h
    · cases h
    · dsimp only at h
      split at h
      · exact .inr ⟨_, (Except.ok.inj h).symm⟩
      · obtain ⟨n, dims, hdims⟩ := exists_addDimension _ _
        exact .inl ⟨n, dims, (Except.ok.inj h).symm.trans hdims⟩

theorem arrayOf_ne_endlessReference (d : Die) (element : TypeNode) :
    arrayOf d element ≠ .error .endlessReference := by
  unfold arrayOf
  split
  · exact nofun
  · split
    · exact nofun
    · dsimp only
      split <;> exact nofun

/-! ## Runs -/

namespace BuildM

variable {α β : Type} {x : BuildM α} {f : α → BuildM β} {b : Builder}

theorem run_bind (x : BuildM α) (f : α → BuildM β) (b : Builder) :
    (x >>= f).run b =
      match x.run b with
      | (.ok a, b') => (f a).run b'
      | (.error g, b') => (.error g, b') := by
  change (match (x.run b : Except Failure α × Builder) with
    | (o, b') => ExceptT.bindCont f o b') = _
  rcases x.run b with ⟨o | o, b'⟩ <;> rfl

theorem bind_eq_ok {r : β} : ((x >>= f).run b).1 = .ok r ↔
    ∃ a b', x.run b = (.ok a, b') ∧ ((f a).run b').1 = .ok r := by
  rw [run_bind]
  rcases x.run b with ⟨g | a, b'⟩
  · refine ⟨nofun, ?_⟩
    rintro ⟨_, _, ⟨⟩, _⟩
  · refine ⟨fun h => ⟨a, b', rfl, h⟩, ?_⟩
    rintro ⟨_, _, ⟨⟩, h⟩
    exact h

theorem run_get_bind (f : Builder → BuildM β) (b : Builder) : (get >>= f).run b = (f b).run b := rfl

/-- What is done in the end is done whether the computation fails or not. -/
theorem run_tryFinally (x : BuildM α) (f : Builder → Builder) (b : Builder) :
    (tryFinally x (modify f)).run b = ((x.run b).1, f (x.run b).2) := by
  rcases hx : x.run b with ⟨g | a, b'⟩
  all_goals
    rw [ExceptT.run] at hx
    simp only [ExceptT.run, tryFinally, tryFinally', ExceptT.mk, Functor.map, ExceptT.map, bind,
      StateT.bind, hx]
    rfl

/-- The aggregate is added before the computation and removed after it. -/
theorem run_whileBuilding (offset : Nat) (x : BuildM α) (b : Builder) :
    (whileBuilding offset x).run b =
      ((x.run { b with building := offset :: b.building }).1,
        { (x.run { b with building := offset :: b.building }).2 with
          building :=
            (x.run { b with building := offset :: b.building }).2.building.erase offset }) :=
  run_tryFinally x _ { b with building := offset :: b.building }

@[simp] theorem run_check (y : Except Failure α) (b : Builder) : (check y).run b = (y, b) := by
  cases y <;> rfl

end BuildM

/-! ## Beginning to build an aggregate -/

section Enter

variable {α : Type} {x : BuildM α} {b : Builder} {recur : Option Die → BuildM TypeNode}

/-- Begins to build an aggregate.  One that is being built already contains itself. -/
def enter (d : Die) (x : BuildM α) : BuildM α := do
  if (← get).building.contains d.offset then throw (.ofCause (.recordedCycle d.name?))
  whileBuilding d.offset x

theorem run_enter_of_mem (h : d.offset ∈ b.building) :
    (enter d x).run b = (.error (.ofCause (.recordedCycle d.name?)), b) := by
  rw [enter, BuildM.run_get_bind, if_pos (List.contains_iff_mem.mpr h)]
  rfl

theorem run_enter_of_not_mem (h : d.offset ∉ b.building) :
    (enter d x).run b = (whileBuilding d.offset x).run b := by
  rw [enter, BuildM.run_get_bind, if_neg fun hmem => h (List.contains_iff_mem.mp hmem)]

theorem buildAggregate_of_definition (hdef : d.isDeclaration = false) :
    buildAggregate info recur d = enter d (buildMembers info recur d.name? d.children) >>=
      fun members => pure (.aggregate (aggregateOf d members)) := by
  simp only [buildAggregate, enter, hdef, Bool.false_eq_true, if_false, bind_assoc]
  refine congrArg (get >>= ·) (funext fun b => ?_)
  split <;> simp only [bind_assoc]

theorem buildEntry_of_isAggregate (hagg : d.isAggregate = true) :
    buildEntry info recur d = buildAggregate info recur d := by
  obtain ⟨halias, hbase, henumeration, hpointer, harray⟩ :=
    sort_of_tag.2 d.tag (List.contains_iff_mem.mp hagg)
  simp [buildEntry, halias, hbase, henumeration, hpointer, harray, hagg]

theorem buildEntry_of_array (htag : d.tag = arrayTag) :
    buildEntry info recur d =
      recur (info.typeOf? d) >>= fun element => check (arrayOf d element) := by
  have hother : isAliasTag arrayTag = false ∧ arrayTag ≠ baseTag ∧ arrayTag ≠ enumerationTag ∧
      isPointerTag arrayTag = false := by decide
  simp [buildEntry, htag, hother]

end Enter

/-! ## The code for one entry -/

/-- The rules of a way to reason about builders: `Tells building own x z R` compares `x` with `z`,
which may be a whole family of computations, where the aggregates `building` are being built and
nothing is kept at the offsets `own`.  What `x` may return is said to be exactly what satisfies
`R`. -/
structure BuildLogic (info : Info) where
  Tells : {α : Type} → List Nat → List Nat → BuildM α → (Nat → BuildM α) → (α → Prop) → Prop
  of_pure : ∀ {α : Type} {building own : List Nat} (a : α),
    Tells building own (pure a) (fun _ => pure a) (· = a)
  throw : ∀ {α : Type} {building own : List Nat} {f : Failure}, f ≠ .endlessReference →
    Tells building own (throw f : BuildM α) (fun _ => throw f) fun _ => False
  bind : ∀ {α β : Type} {building own : List Nat} {x : BuildM α} {z : Nat → BuildM α}
    {R : α → Prop} {f : α → BuildM β} {g : Nat → α → BuildM β} {S : α → β → Prop},
    Tells building own x z R →
    (∀ a, R a → Tells building [] (f a) (fun n => g n a) (S a)) →
    Tells building own (x >>= f) (fun n => z n >>= g n) fun b => ∃ a, R a ∧ S a b
  note : ∀ {building own : List Nat} (message : String),
    Tells building own (note message) (fun _ => note message) fun _ => True
  enter : ∀ {α : Type} {building : List Nat} {x : BuildM α} {z : Nat → BuildM α} {R : α → Prop}
    {d : Die}, d ∈ info.dies → d.isAggregate = true → d.isDeclaration = false →
    (d.offset ∉ building → Tells (d.offset :: building) [] x z R) →
    Tells building [d.offset] (enter d x) (fun n => enter d (z n)) fun a => d.offset ∉ building ∧ R a
  weaken : ∀ {α : Type} {building own : List Nat} {x : BuildM α} {z : Nat → BuildM α}
    {R : α → Prop}, Tells building [] x z R → Tells building own x z R
  congr : ∀ {α : Type} {building own : List Nat} {x : BuildM α} {z : Nat → BuildM α}
    {R R' : α → Prop}, (∀ a, R a ↔ R' a) → Tells building own x z R → Tells building own x z R'

namespace BuildLogic

variable (L : BuildLogic info) {building own : List Nat} {recur : Option Die → BuildM TypeNode}
  {g : Nat → Option Die → BuildM TypeNode}

theorem check {α : Type} {y : Except Failure α} (hy : y ≠ .error .endlessReference) :
    L.Tells building own (check y) (fun _ => check y) fun a => y = .ok a := by
  cases y with
  | ok a => exact L.congr (fun _ => by rw [Except.ok.injEq, eq_comm]) (L.of_pure a)
  | error f => exact L.congr (fun _ => by simp) (L.throw fun hf => hy (congrArg _ hf))

theorem tells_buildMember {c : Die}
    (hrecur : L.Tells building [] (recur (info.typeOf? c)) (fun n => g n (info.typeOf? c))
      (K (info.typeOf? c))) :
    L.Tells building [] (buildMember info recur c) (fun n => buildMember info (g n) c)
      (BuiltMember info K c) := by
  unfold buildMember
  cases hbits : c.attributeQuantity? "DW_AT_bit_size" with
  | none =>
    refine L.congr (fun x => ?_)
      (L.bind hrecur fun type _ => L.of_pure (Member.mk type c.name? (attributesOf c)))
    constructor
    · rintro ⟨type, hknown, rfl⟩
      exact .plain hknown hbits
    · intro h
      cases h with
      | plain known bits => exact ⟨_, known, rfl⟩
      | bitfield known bits => exact absurd (hbits.symm.trans bits) nofun
  | some width =>
    let IsField (type : TypeNode) (x : Member) : Prop :=
      ∃ q, type = .primitive q ∧ x = ⟨.bitfield q width.constant, c.name?, attributesOf c⟩
    refine L.congr (fun x => ?_) (L.bind (S := IsField) hrecur fun type _ => ?_)
    · constructor
      · rintro ⟨_, hknown, q, rfl, rfl⟩
        exact .bitfield hknown hbits
      · intro h
        cases h with
        | plain known bits => exact absurd (hbits.symm.trans bits) nofun
        | bitfield known bits =>
          cases hbits.symm.trans bits
          exact ⟨_, known, _, rfl, rfl⟩
    · cases type with
      | primitive q => exact L.congr (fun x => by simp [IsField]) (L.of_pure _)
      | aggregate | array | flexibleArray | bitfield | incomplete | unknown =>
        exact L.congr (fun x => by simp [IsField]) (L.throw nofun)

theorem tells_buildMembers (name : Option String) {cs : List Die}
    (hrecur : ∀ c ∈ cs, c.isMember = true → L.Tells building [] (recur (info.typeOf? c))
      (fun n => g n (info.typeOf? c)) (K (info.typeOf? c))) :
    L.Tells building [] (buildMembers info recur name cs)
      (fun n => buildMembers info (g n) name cs)
      (List.Forall₂ (BuiltMember info K) (cs.filter Die.isMember)) := by
  induction cs with
  | nil => exact L.congr (fun ms => by simp) (L.of_pure [])
  | cons c cs ih =>
    have ih := ih fun c' hc' => hrecur c' (List.mem_cons_of_mem c hc')
    unfold buildMembers
    by_cases hbase : c.tag = baseClassTag
    · have hmember : c.isMember = false := by
        simp [Die.isMember, hbase, baseClassTag, memberTag]
      simp only [if_pos hbase, List.filter_cons, hmember, Bool.false_eq_true, if_false]
      exact L.congr (fun ms => by simp) (L.bind (L.note _) fun _ _ => ih)
    cases hmember : c.isMember with
    | false => simpa only [if_neg hbase, List.filter_cons, hmember, Bool.false_eq_true, if_false]
    | true =>
      simp only [if_neg hbase, List.filter_cons, hmember, if_true]
      refine L.congr (fun ms => ?_)
        (L.bind (L.tells_buildMember (hrecur c List.mem_cons_self hmember)) fun m _ =>
          L.bind ih fun ms _ => L.of_pure (m :: ms))
      rw [List.forall₂_cons_left_iff]
      constructor
      · rintro ⟨m, hm, ms, hms, rfl⟩
        exact ⟨m, ms, hm, hms, rfl⟩
      · rintro ⟨m, ms, hm, hms, rfl⟩
        exact ⟨m, hm, ms, hms, rfl⟩

/-- What an entry yields while aggregates are being built: what is built for it, unless it is one of
these. -/
structure Yields (info : Info) (K : Option Die → TypeNode → Prop) (building : List Nat) (d : Die)
    (node : TypeNode) : Prop where
  built : BuiltEntry info K d node
  new : d.isAggregate = true → d.isDeclaration = false → d.offset ∉ building

theorem tells_buildAggregate (hd : d ∈ info.dies) (hagg : d.isAggregate = true)
    (hmembers : d.offset ∉ building → ∀ c ∈ d.children, c.isMember = true →
      L.Tells (d.offset :: building) [] (recur (info.typeOf? c)) (fun n => g n (info.typeOf? c))
        (K (info.typeOf? c))) :
    L.Tells building [d.offset] (buildAggregate info recur d)
      (fun n => buildAggregate info (g n) d) (Yields info K building d) := by
  cases hdef : d.isDeclaration with
  | true =>
    simp only [buildAggregate, hdef, if_true]
    refine L.congr (fun node => ?_) (L.of_pure _)
    constructor
    · rintro rfl
      exact ⟨.declared hagg hdef, fun _ hno => absurd (hdef.symm.trans hno) nofun⟩
    · intro h
      exact (builtEntry_iff_of_declaration hagg hdef).mp h.built
  | false =>
    simp only [buildAggregate_of_definition hdef]
    refine L.congr (fun node => ?_)
      (L.bind (L.enter hd hagg hdef fun hnew => L.tells_buildMembers d.name? (hmembers hnew))
        fun members _ => L.of_pure (TypeNode.aggregate (aggregateOf d members)))
    constructor
    · rintro ⟨members, ⟨hnew, hmembers⟩, rfl⟩
      exact ⟨.aggregate hagg hdef hmembers, fun _ _ => hnew⟩
    · rintro ⟨hnode, hnew⟩
      obtain ⟨members, hmembers, rfl⟩ := (builtEntry_iff_of_definition hagg hdef).mp hnode
      exact ⟨members, ⟨hnew hagg hdef, hmembers⟩, rfl⟩

/-- **The code for one entry** returns what is built for the entry, given what is returned for the
types that it refers to.  Those of its members are built while the entry itself is being built. -/
theorem tells_buildEntry (hd : d ∈ info.dies)
    (hpass : isAliasTag d.tag = true ∨ d.tag = arrayTag →
      L.Tells building [] (recur (info.typeOf? d)) (fun n => g n (info.typeOf? d))
        (K (info.typeOf? d)))
    (hmembers : d.isAggregate = true → d.offset ∉ building → ∀ c ∈ d.children,
      c.isMember = true → L.Tells (d.offset :: building) [] (recur (info.typeOf? c))
        (fun n => g n (info.typeOf? c)) (K (info.typeOf? c))) :
    L.Tells building [d.offset] (buildEntry info recur d) (fun n => buildEntry info (g n) d)
      (Yields info K building d) := by
  by_cases hagg : d.isAggregate = true
  · simp only [buildEntry_of_isAggregate hagg]
    exact L.tells_buildAggregate hd hagg (hmembers hagg)
  refine L.congr (R := fun node => BuiltEntry info K d node)
    (fun node => ⟨fun h => ⟨h, fun h => absurd h hagg⟩, Yields.built⟩) ?_
  unfold buildEntry
  simp only [builtEntry_iff]
  by_cases halias : isAliasTag d.tag = true
  · simp only [if_pos halias]
    exact L.weaken (hpass (.inl halias))
  by_cases hbase : d.tag = baseTag
  · simp only [if_neg halias, if_pos hbase]
    exact L.of_pure _
  by_cases henumeration : d.tag = enumerationTag
  · simp only [if_neg halias, if_neg hbase, if_pos henumeration]
    exact L.of_pure _
  by_cases hpointer : isPointerTag d.tag = true
  · simp only [if_neg halias, if_neg hbase, if_neg henumeration, if_pos hpointer]
    exact L.of_pure _
  simp only [if_neg halias, if_neg hbase, if_neg henumeration, if_neg hpointer, if_neg hagg]
  by_cases harray : d.tag = arrayTag
  · simp only [if_pos harray]
    exact L.weaken (L.bind (hpass (.inr harray))
      fun element _ => L.check (arrayOf_ne_endlessReference d element))
  · simp only [if_neg harray]
    exact L.congr (fun node => by simp) (L.bind (L.note _) fun _ _ => L.of_pure _)

end BuildLogic

end RecordLayout.Dwarf
