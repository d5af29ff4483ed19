import Mathlib.Data.Prod.Lex
import RecordLayout.Proofs.Dwarf.EntryType
import RecordLayout.Proofs.Text.Blank

/-!
# The entry that defines an aggregate

Several entries may have one name and one tag: declarations, and a definition in each unit that
needs one.  One of them stands for all, namely the first of those that say most.  A definition says
more than a declaration, whatever else is recorded in the two; among entries that are alike in this,
one with a size says more than one without, and after that one that may have children.

So a declaration stands for a name only where there is no definition.  But an entry that is complete
does not speak for itself, either: where the same name and tag are used for two types, both are
built from the members of one of them (`build_other_members`).

## Main definitions

* `Die.rank` is how much an entry says about its type;
* `IsFirstBest` says that an entry is the first in a list of those that say most;
* `Info.StandsFor` says that an entry stands for another one, or for itself.

## Main results

* `exists_best`, `Info.standsFor_canonical`: the first of the best entries stands for an entry;
* `wantedTags_keyword`: a keyword in front of a name asks for one tag;
* `definition_found`: a declaration is resolved to a definition if there is one;
* `members_of_build`: an aggregate has the members of the entry that stands for it.
-/

namespace RecordLayout

namespace Dwarf

variable {info : Info} {c d e : Die} {name : String}

/-! ## The first of the best -/

/-- How much an entry says about its type: whether it defines the type, then whether it has a size,
then whether it may have children. -/
def Die.rank (d : Die) : Bool ×ₗ Bool ×ₗ Bool :=
  toLex (!d.isDeclaration, toLex ((d.attribute? "DW_AT_byte_size").isSome, d.hasChildren))

/-- No two of the three criteria outweigh one before them. -/
theorem Die.rank_lt_rank_iff : d.rank < e.rank ↔ Info.score d < Info.score e := by
  unfold Die.rank Info.score
  generalize d.isDeclaration = a, (d.attribute? "DW_AT_byte_size").isSome = b, d.hasChildren = c
  generalize e.isDeclaration = a', (e.attribute? "DW_AT_byte_size").isSome = b', e.hasChildren = c'
  simp only [Prod.Lex.toLex_lt_toLex]
  revert a b c a' b' c'
  decide

/-- A definition says more than a declaration. -/
theorem Die.isDeclaration_of_rank_le (h : d.rank ≤ e.rank) (he : e.isDeclaration = true) :
    d.isDeclaration = true := by
  rw [Die.rank, Die.rank, Prod.Lex.toLex_le_toLex, he] at h
  cases hd : d.isDeclaration with
  | true => rfl
  | false =>
    rw [hd] at h
    rcases h with h | ⟨h, -⟩ <;> simp [Bool.lt_iff] at h

/-- An entry says most of all in a list, and all those before it say less. -/
def IsFirstBest (dies : List Die) (c : Die) : Prop :=
  ∃ before after, dies = before ++ c :: after ∧ (∀ e ∈ before, e.rank < c.rank) ∧
    ∀ e ∈ after, e.rank ≤ c.rank

namespace IsFirstBest

variable {dies : List Die}

theorem mem (h : IsFirstBest dies c) : c ∈ dies := by
  obtain ⟨before, after, rfl, -, -⟩ := h
  simp

theorem rank_le (h : IsFirstBest dies c) (he : e ∈ dies) : e.rank ≤ c.rank := by
  obtain ⟨before, after, rfl, hbefore, hafter⟩ := h
  rcases List.mem_append.mp he with he | he
  · exact (hbefore e he).le
  · rcases List.mem_cons.mp he with rfl | he
    · exact le_rfl
    · exact hafter e he

theorem cons_of_lt (h : IsFirstBest dies c) (hlt : d.rank < c.rank) :
    IsFirstBest (d :: dies) c := by
  obtain ⟨before, after, rfl, hbefore, hafter⟩ := h
  refine ⟨d :: before, after, rfl, ?_, hafter⟩
  intro e he
  rcases List.mem_cons.mp he with rfl | he
  · exact hlt
  · exact hbefore e he

/-- An entry that says no more than the one before it changes nothing. -/
theorem insert_of_le (h : IsFirstBest (d :: dies) c) (hle : e.rank ≤ d.rank) :
    IsFirstBest (d :: e :: dies) c := by
  obtain ⟨before, after, heq, hbefore, hafter⟩ := h
  cases before with
  | nil =>
    obtain ⟨rfl, rfl⟩ := List.cons.inj heq
    refine ⟨[], e :: dies, rfl, nofun, ?_⟩
    intro e' he'
    rcases List.mem_cons.mp he' with rfl | he'
    · exact hle
    · exact hafter e' he'
  | cons d' before =>
    obtain ⟨rfl, rfl⟩ := List.cons.inj heq
    rw [List.forall_mem_cons] at hbefore
    refine ⟨d :: e :: before, after, rfl, ?_, hafter⟩
    rw [List.forall_mem_cons, List.forall_mem_cons]
    exact ⟨hbefore.1, hle.trans_lt hbefore.1, hbefore.2⟩

/-- A list has one first best entry. -/
theorem unique (h : IsFirstBest dies c) (h' : IsFirstBest dies d) : c = d := by
  obtain ⟨before, after, heq, hbefore, hafter⟩ := h
  obtain ⟨before', after', heq', hbefore', hafter'⟩ := h'
  rcases List.append_eq_append_iff.mp (heq.symm.trans heq') with ⟨as, rfl, has⟩ | ⟨bs, rfl, hbs⟩
  · cases as with
    | nil => exact (List.cons.inj has).1
    | cons a as =>
      obtain ⟨rfl, rfl⟩ := List.cons.inj has
      exact absurd (hafter d (by simp)) (hbefore' c (by simp)).not_ge
  · cases bs with
    | nil => exact (List.cons.inj hbs).1.symm
    | cons b bs =>
      obtain ⟨rfl, rfl⟩ := List.cons.inj hbs
      exact absurd (hafter' c (by simp)) (hbefore d (by simp)).not_ge

end IsFirstBest

/-- **The best entry so far** is kept until a better one comes. -/
theorem exists_best (b : Die) (dies : List Die) :
    ∃ c, dies.foldl Info.better (some b) = some c ∧ IsFirstBest (b :: dies) c := by
  induction dies generalizing b with
  | nil => exact ⟨b, rfl, [], [], rfl, nofun, nofun⟩
  | cons e dies ih =>
    rw [List.foldl_cons, Info.better]
    by_cases hlt : Info.score b < Info.score e
    · rw [if_pos hlt]
      obtain ⟨c, hc, hbest⟩ := ih e
      refine ⟨c, hc, hbest.cons_of_lt ?_⟩
      exact (Die.rank_lt_rank_iff.mpr hlt).trans_le (hbest.rank_le List.mem_cons_self)
    · rw [if_neg hlt]
      obtain ⟨c, hc, hbest⟩ := ih b
      refine ⟨c, hc, hbest.insert_of_le ?_⟩
      exact not_lt.mp fun h => hlt (Die.rank_lt_rank_iff.mp h)

/-- An entry stands for another one: that of the same name and tag that says most and comes first.
An entry without a name stands for itself. -/
def Info.StandsFor (info : Info) (c d : Die) : Prop :=
  match d.name? with
  | none => c = d
  | some name => IsFirstBest (info.dies.filter (Info.isNamed name d.tag)) c

namespace Info

theorem isNamed_iff (hagg : d.isAggregate = true) :
    isNamed name d.tag e = true ↔ e.tag = d.tag ∧ e.name? = some name := by
  simp only [isNamed, Bool.and_eq_true, beq_iff_eq, isIndexedTag, Bool.or_eq_true]
  constructor
  · exact fun h => ⟨h.1.2, h.2⟩
  · exact fun h => ⟨⟨.inl (h.1 ▸ hagg), h.1⟩, h.2⟩

/-- The best entry of the name and the tag of an aggregate. -/
theorem exists_best? (hd : d ∈ info.dies) (hagg : d.isAggregate = true)
    (hname : d.name? = some name) : ∃ c, info.best? name d.tag = some c ∧
      IsFirstBest (info.dies.filter (isNamed name d.tag)) c := by
  have hmem : d ∈ info.dies.filter (isNamed name d.tag) :=
    List.mem_filter.mpr ⟨hd, (isNamed_iff hagg).mpr ⟨rfl, hname⟩⟩
  unfold best?
  cases hdies : info.dies.filter (isNamed name d.tag) with
  | nil =>
    rw [hdies] at hmem
    cases hmem
  | cons b dies => exact exists_best b dies

/-- **The first of the best entries stands for an aggregate.** -/
theorem standsFor_canonical (hd : d ∈ info.dies) (hagg : d.isAggregate = true) :
    info.StandsFor (info.canonical d) d := by
  unfold StandsFor canonical
  cases hname : d.name? with
  | none => rfl
  | some name =>
    obtain ⟨c, hc, hbest⟩ := exists_best? hd hagg hname
    simpa [hagg, hc] using hbest

theorem StandsFor.unique (h : info.StandsFor c d) (h' : info.StandsFor e d) : c = e := by
  unfold StandsFor at h h'
  cases hname : d.name? with
  | none =>
    rw [hname] at h h'
    exact h.trans h'.symm
  | some name =>
    rw [hname] at h h'
    exact h.unique h'

end Info

/-- The best of some entries is a definition if one of them is. -/
theorem IsFirstBest.isDeclaration_eq_false
    (h : IsFirstBest (info.dies.filter (Info.isNamed name d.tag)) c) (hagg : d.isAggregate = true)
    (he : e ∈ info.dies) (htag : e.tag = d.tag) (hname : e.name? = some name)
    (hdef : e.isDeclaration = false) : c.isDeclaration = false := by
  have hmem : e ∈ info.dies.filter (Info.isNamed name d.tag) :=
    List.mem_filter.mpr ⟨he, (Info.isNamed_iff hagg).mpr ⟨htag, hname⟩⟩
  by_contra hdecl
  have htrue := Die.isDeclaration_of_rank_le (h.rank_le hmem) (Bool.eq_true_of_not_eq_false hdecl)
  exact absurd (hdef.symm.trans htrue) Bool.false_ne_true

/-- What stands for a definition is one. -/
theorem Info.StandsFor.isDeclaration_eq_false (h : info.StandsFor c d) (hd : d ∈ info.dies)
    (hagg : d.isAggregate = true) (hdef : d.isDeclaration = false) : c.isDeclaration = false := by
  unfold StandsFor at h
  cases hname : d.name? with
  | none =>
    rw [hname] at h
    rwa [h]
  | some name =>
    rw [hname] at h
    exact IsFirstBest.isDeclaration_eq_false h hagg hd rfl hname hdef

/-! ## Looking up a definition -/

theorem Die.name_ne_empty (h : d.name? = some name) : name ≠ "" := by
  simpa using (Option.filter_eq_some_iff.mp h).2

/-- **A keyword in front of a name asks for one tag.** -/
theorem wantedTags_keyword {keyword : String} {tag : Label} (h : (keyword, tag) ∈ tagKeywords)
    (hne : name ≠ "") (hstrip : Text.strip name = name) :
    wantedTags (keyword ++ name) = (name, [tag]) := by
  -- Every keyword begins with a letter and ends with a blank, and no two begin alike.
  have hkeep (c : Char) (start : List Char) (hc : Text.isBlank c = false) :
      Text.strip (String.ofList (c :: start) ++ name) = String.ofList (c :: start) ++ name :=
    Text.strip_append hc hstrip hne
  simp only [tagKeywords, List.mem_cons, Prod.mk.injEq, List.not_mem_nil, or_false] at h
  unfold wantedTags
  rcases h with ⟨rfl, rfl⟩ | ⟨rfl, rfl⟩ | ⟨rfl, rfl⟩
  · rw [show "struct " = String.ofList ('s' :: "truct ".toList) by decide, hkeep _ _ (by decide)]
    simp [tagKeywords, Text.dropStart?, Text.dropList?, hstrip]
  · rw [show "union " = String.ofList ('u' :: "nion ".toList) by decide, hkeep _ _ (by decide)]
    simp [tagKeywords, Text.dropStart?, Text.dropList?, hstrip]
  · rw [show "class " = String.ofList ('c' :: "lass ".toList) by decide, hkeep _ _ (by decide)]
    simp [tagKeywords, Text.dropStart?, Text.dropList?, hstrip]

theorem Info.hasName_of_mem (hd : d ∈ info.dies) (hagg : d.isAggregate = true)
    (hname : d.name? = some name) : info.hasName name = true := by
  refine List.any_eq_true.mpr ⟨d, hd, ?_⟩
  have hindexed : isIndexedTag d.tag = true := Bool.or_eq_true_iff.mpr (.inl hagg)
  simp [hindexed, hname]

/-- The name of an aggregate with the keyword of its tag leads to the best entry. -/
theorem Info.findRoot_keyword {keyword : String} (hkeyword : (keyword, d.tag) ∈ tagKeywords)
    (hd : d ∈ info.dies) (hagg : d.isAggregate = true) (hname : d.name? = some name)
    (hstrip : Text.strip name = name) (hbest : info.best? name d.tag = some c) :
    info.findRoot (keyword ++ name) = .ok c := by
  have htag : d.tag ≠ typedefTag := by
    intro h
    have haliases : isAliasTag d.tag = true := by rw [h]; rfl
    exact absurd (hagg.symm.trans (isAggregate_of_isAliasTag haliases)) nofun
  unfold findRoot
  rw [wantedTags_keyword hkeyword (Die.name_ne_empty hname) hstrip]
  simp [hasName_of_mem hd hagg hname, aggregateNamed?, hbest, htag]

theorem exists_keyword (hagg : d.isAggregate = true) :
    ∃ keyword, (keyword, d.tag) ∈ tagKeywords := by
  have hall : ∀ tag ∈ [structTag, classTag, unionTag], ∃ k ∈ tagKeywords, k.2 = tag := by decide
  obtain ⟨⟨keyword, _⟩, hmem, rfl⟩ := hall d.tag (List.contains_iff_mem.mp hagg)
  exact ⟨keyword, hmem⟩

/-! ## What is built for an aggregate -/

section Builds

variable {calls : List Builder.Call} {node : TypeNode}
  (hoffsets : (info.dies.map (·.offset)).Nodup) (hcalls : ∀ call ∈ calls, call.IsAbout info)
  (hd : d ∈ info.dies) (hagg : d.isAggregate = true)

include hoffsets hcalls hd hagg

/-- What is built for an aggregate, from the entry that stands for it. -/
theorem aggregate_cases_of_build
    (h : ((build info (some d)).run (Builder.fresh.replay info calls)).1 = .ok node) :
    (info.canonical d).isDeclaration = true ∧
        node = .incomplete (.name (declaredName (info.canonical d))) ∨
      (info.canonical d).isDeclaration = false ∧ ∃ a : Aggregate, node = .aggregate a ∧
        a.name = (info.canonical d).name? ∧ a.origin = .recorded (info.canonical d).offset ∧
        List.Forall₂ (BuiltMember info info.HasType)
          ((info.canonical d).children.filter Die.isMember) a.members := by
  have htype := (run_build_eq_ok_iff hoffsets hcalls (Info.forall_mem_some hd)).mp h
  exact htype.builtEntry.aggregate_cases ((info.isAggregate_canonical d).trans hagg)

/-- **A declaration is resolved to a definition if there is one.**  The entry that is used for an
aggregate of a name, by whichever way it is asked for, is the first of those that say most.  What is
built has the name and the members of this entry, unless it is a declaration, too. -/
theorem definition_found (hname : d.name? = some name) (hstrip : Text.strip name = name) :
    ∃ c, IsFirstBest (info.dies.filter (Info.isNamed name d.tag)) c ∧
      (∃ keyword, (keyword, d.tag) ∈ tagKeywords ∧ info.findRoot (keyword ++ name) = .ok c) ∧
      (∀ node, ((build info (some d)).run (Builder.fresh.replay info calls)).1 = .ok node →
        c.isDeclaration = true ∧ node = .incomplete (.name (declaredName c)) ∨
          c.isDeclaration = false ∧ ∃ a, node = .aggregate a ∧ a.name = some name ∧
            a.origin = .recorded c.offset ∧ List.Forall₂ (BuiltMember info info.HasType)
              (c.children.filter Die.isMember) a.members) ∧
      ((∃ e ∈ info.dies, e.tag = d.tag ∧ e.name? = some name ∧ e.isDeclaration = false) →
        c.isDeclaration = false ∧
          ∀ node, ((build info (some d)).run (Builder.fresh.replay info calls)).1 = .ok node →
            ∀ label, node ≠ .incomplete label) := by
  obtain ⟨c, hc, hbest⟩ := Info.exists_best? hd hagg hname
  obtain ⟨keyword, hkeyword⟩ := exists_keyword hagg
  have hcanonical : info.canonical d = c := by simp [Info.canonical, hname, hagg, hc]
  have hcname : c.name? = some name :=
    ((Info.isNamed_iff hagg).mp (List.mem_filter.mp hbest.mem).2).2
  have hbuilt (node : TypeNode)
      (h : ((build info (some d)).run (Builder.fresh.replay info calls)).1 = .ok node) :
      c.isDeclaration = true ∧ node = .incomplete (.name (declaredName c)) ∨
        c.isDeclaration = false ∧ ∃ a, node = .aggregate a ∧ a.name = some name ∧
          a.origin = .recorded c.offset ∧ List.Forall₂ (BuiltMember info info.HasType)
            (c.children.filter Die.isMember) a.members := by
    have hcases := aggregate_cases_of_build hoffsets hcalls hd hagg h
    rwa [hcanonical, hcname] at hcases
  have hfound := Info.findRoot_keyword hkeyword hd hagg hname hstrip hc
  refine ⟨c, hbest, ⟨keyword, hkeyword, hfound⟩, hbuilt, ?_⟩
  rintro ⟨e, he, htag, hsame, hdef⟩
  have hcdef := hbest.isDeclaration_eq_false hagg he htag hsame hdef
  refine ⟨hcdef, ?_⟩
  rintro node h label rfl
  rcases hbuilt _ h with ⟨hdecl, -⟩ | ⟨-, a, hnode, -⟩
  · exact absurd (hcdef.symm.trans hdecl) Bool.false_ne_true
  · cases hnode

/-- **An aggregate has the members of the entry that stands for it**, each with the type that its
own entry refers to, whatever has been built before. -/
theorem members_of_build (hdef : d.isDeclaration = false)
    (h : ((build info (some d)).run (Builder.fresh.replay info calls)).1 = .ok node) :
    ∃ c a, info.StandsFor c d ∧ (info.StandsFor d d → c = d) ∧ node = .aggregate a ∧
      a.name = c.name? ∧ a.origin = .recorded c.offset ∧
      List.Forall₂
        (BuiltMember info fun od type => ∀ calls : List Builder.Call,
          (∀ call ∈ calls, call.IsAbout info) →
            ((build info od).run (Builder.fresh.replay info calls)).1 = .ok type)
        (c.children.filter Die.isMember) a.members := by
  have hstands := Info.standsFor_canonical hd hagg
  have hcdef := hstands.isDeclaration_eq_false hd hagg hdef
  rcases aggregate_cases_of_build hoffsets hcalls hd hagg h with
    ⟨hdecl, -⟩ | ⟨-, a, hnode, hname, horigin, hmembers⟩
  · exact absurd (hcdef.symm.trans hdecl) Bool.false_ne_true
  · refine ⟨info.canonical d, a, hstands, hstands.unique, hnode, hname, horigin, ?_⟩
    refine hmembers.imp fun c x hx => hx.mono fun type htype calls hcalls => ?_
    exact (run_build_eq_ok_iff hoffsets hcalls fun _ => Info.mem_of_typeOf?).mpr htype

end Builds

/-! ## Two binaries -/

/-- A declaration that says all but what the type is, and a definition after it. -/
def lateDefinition : Info := .ofRoots .little 8
  [⟨structTag, 1, 8, true,
    [("DW_AT_name", .text "node"), ("DW_AT_byte_size", .ofInt 8), ("DW_AT_declaration", .ofInt 1)],
    none, [⟨memberTag, 2, 8, false, [("DW_AT_name", .text "next")], none, []⟩]⟩,
   ⟨structTag, 3, 8, false, [("DW_AT_name", .text "node")], none,
    [⟨memberTag, 4, 8, false, [("DW_AT_name", .text "value")], some 5, []⟩]⟩,
   ⟨baseTag, 5, 8, false, [("DW_AT_name", .text "int"), ("DW_AT_byte_size", .ofInt 4)], none, []⟩]

/-- The declaration is built as the definition, after it has been asked for by name. -/
theorem definition_found_lateDefinition :
    (lateDefinition.dies.map (·.offset)).Nodup ∧ Text.strip "node" = "node" ∧
      ∃ d ∈ lateDefinition.dies, d.isAggregate = true ∧ d.isDeclaration = true ∧
        d.name? = some "node" ∧ ∃ c, c.isDeclaration = false ∧
          IsFirstBest (lateDefinition.dies.filter (Info.isNamed "node" d.tag)) c ∧
          ∃ a : Aggregate, ((build lateDefinition (some d)).run
              (Builder.fresh.replay lateDefinition [.buildType "struct node"])).1 =
                .ok (.aggregate a) ∧
            a.name = some "node" ∧ a.origin = .recorded c.offset ∧
            a.members.map (·.name) = [some "value"] ∧
            List.Forall₂ (BuiltMember lateDefinition lateDefinition.HasType)
              (c.children.filter Die.isMember) a.members := by
  have hoffsets : (lateDefinition.dies.map (·.offset)).Nodup := by decide +kernel
  have hstrip : Text.strip "node" = "node" := by decide +kernel
  obtain ⟨d, e, hd, he, hagg, hdecl, hname, htag, hsame, hdef, a, hnode, hmembers⟩ :
      ∃ d e, d ∈ lateDefinition.dies ∧ e ∈ lateDefinition.dies ∧ d.isAggregate = true ∧
        d.isDeclaration = true ∧ d.name? = some "node" ∧ e.tag = d.tag ∧
        e.name? = some "node" ∧ e.isDeclaration = false ∧
        ∃ a : Aggregate, ((build lateDefinition (some d)).run
            (Builder.fresh.replay lateDefinition [.buildType "struct node"])).1 =
              .ok (.aggregate a) ∧ a.members.map (·.name) = [some "value"] :=
    ⟨_, _, .head _, .tail _ (.tail _ (.head _)), rfl, rfl, rfl, rfl, rfl, rfl, _, rfl, rfl⟩
  have hcalls : ∀ call ∈ [Builder.Call.buildType "struct node"], call.IsAbout lateDefinition :=
    List.forall_mem_singleton.mpr trivial
  obtain ⟨c, hbest, -, hbuilt, hfound⟩ := definition_found hoffsets hcalls hd hagg hname hstrip
  obtain ⟨hcdef, -⟩ := hfound ⟨e, he, htag, hsame, hdef⟩
  rcases hbuilt _ hnode with ⟨hcdecl, -⟩ | ⟨-, _, ⟨⟩, haname, horigin, hall⟩
  · exact absurd (hcdef.symm.trans hcdecl) Bool.false_ne_true
  · exact ⟨hoffsets, hstrip, d, hd, hagg, hdecl, hname, c, hcdef, hbest, a, hnode, haname, horigin,
      hmembers, hall⟩

/-- The struct of the second unit of `configs`. -/
def secondConfig : Die :=
  ⟨structTag, 5, 8, true, [("DW_AT_name", .text "config"), ("DW_AT_byte_size", .ofInt 16)], none,
    [⟨memberTag, 6, 8, false,
      [("DW_AT_name", .text "first"), ("DW_AT_data_member_location", .ofInt 0)], some 4, []⟩,
     ⟨memberTag, 7, 8, false,
      [("DW_AT_name", .text "last"), ("DW_AT_data_member_location", .ofInt 8)], some 4, []⟩]⟩

/-- Two units that use one name for two structs. -/
def configs : Info := .ofRoots .little 8
  [⟨baseTag, 1, 8, false, [("DW_AT_name", .text "int"), ("DW_AT_byte_size", .ofInt 4)], none, []⟩,
   ⟨structTag, 2, 8, true, [("DW_AT_name", .text "config"), ("DW_AT_byte_size", .ofInt 4)], none,
    [⟨memberTag, 3, 8, false,
      [("DW_AT_name", .text "limit"), ("DW_AT_data_member_location", .ofInt 0)], some 1, []⟩]⟩,
   ⟨baseTag, 4, 8, false, [("DW_AT_name", .text "long"), ("DW_AT_byte_size", .ofInt 8)], none, []⟩,
   secondConfig]

theorem secondConfig_mem : secondConfig ∈ configs.dies :=
  .tail _ (.tail _ (.tail _ (.tail _ (.head _))))

/-- The struct of the second unit is built once more, from the entry that stands for it. -/
theorem members_of_build_configs :
    (configs.dies.map (·.offset)).Nodup ∧ ∃ node,
      ((build configs (some secondConfig)).run
        (Builder.fresh.replay configs [.build (some secondConfig)])).1 = .ok node ∧
      ∃ c a, configs.StandsFor c secondConfig ∧ node = .aggregate a ∧
        List.Forall₂
          (BuiltMember configs fun od type => ∀ calls : List Builder.Call,
            (∀ call ∈ calls, call.IsAbout configs) →
              ((build configs od).run (Builder.fresh.replay configs calls)).1 = .ok type)
          (c.children.filter Die.isMember) a.members := by
  have hoffsets : (configs.dies.map (·.offset)).Nodup := by decide +kernel
  have hcalls : ∀ call ∈ [Builder.Call.build (some secondConfig)], call.IsAbout configs := by
    rw [List.forall_mem_singleton]
    exact Info.forall_mem_some secondConfig_mem
  have hbuilt : ∃ node, ((build configs (some secondConfig)).run
      (Builder.fresh.replay configs [.build (some secondConfig)])).1 = .ok node := ⟨_, rfl⟩
  obtain ⟨node, hnode⟩ := hbuilt
  obtain ⟨c, a, hstands, -, ha, -, -, hmembers⟩ :=
    members_of_build hoffsets hcalls secondConfig_mem rfl rfl hnode
  exact ⟨hoffsets, node, hnode, c, a, hstands, ha, hmembers⟩

/-- The struct of the second unit is complete, and yet it is built from the members of the first
one. -/
theorem build_other_members :
    secondConfig ∈ configs.dies ∧ secondConfig.isAggregate = true ∧
      secondConfig.isDeclaration = false ∧
      (secondConfig.children.filter Die.isMember).map Die.name? = [some "first", some "last"] ∧
      ∃ a : Aggregate, ((build configs (some secondConfig)).run .fresh).1 = .ok (.aggregate a) ∧
        a.members.map (·.name) = [some "limit"] :=
  ⟨secondConfig_mem, rfl, rfl, rfl, _, rfl, rfl⟩

end Dwarf

end RecordLayout
