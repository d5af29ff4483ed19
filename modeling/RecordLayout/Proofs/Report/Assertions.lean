import RecordLayout.Proofs.Report.Declarations

/-!
# Declared before asserted

The assertions of a report call an aggregate by its tag, or by the name of the entry when it has
none.  A declaration introduces the tag, or a type name for an aggregate that has none, and all
declarations stand before all assertions.  So what an assertion calls an aggregate is known there
exactly when the report has the right declaration of it.

An aggregate with a tag is declared always.  One whose name is missing is declared for the first
entry that is about it, under the name of that entry.  One whose name is there but empty has no tag
either, and yet it is passed over: no declaration is made for it at all.

## Main definitions

* `Aggregate.called` is what an aggregate is called;
* `Report.DeclaredFor` says that a report declares an aggregate for the assertions on an entry.

## Main results

* `Report.assertionLines_eq`, `Aggregate.declaration_of_isTagged`,
  `Aggregate.declaration_of_not_isTagged`: what assertions and declarations call an aggregate;
* `Report.find?_of_mem_declared`: the first entry about an aggregate without a name gives it one;
* `Report.declaredFor_iff`: when an aggregate is declared for the assertions on an entry.
-/

namespace RecordLayout

/-! ## What an aggregate is called -/

/-- What an aggregate is called: by its tag, or by a type name when it has none. -/
def Aggregate.called (a : Aggregate) (typeName : String) : String :=
  ((nonemptyName? a.name).map fun tag => a.kind.keyword ++ " " ++ tag).getD typeName

theorem Aggregate.called_of_isTagged {a : Aggregate} (h : a.IsTagged) (typeName typeName' : String) :
    a.called typeName = a.called typeName' := by
  obtain ⟨tag, htag⟩ := Option.isSome_iff_exists.mp h
  simp [Aggregate.called, htag]

theorem Aggregate.called_of_not_isTagged {a : Aggregate} (h : ¬ a.IsTagged) (typeName : String) :
    a.called typeName = typeName := by
  simp [Aggregate.called, Option.not_isSome_iff_eq_none.mp h]

/-- A pack only adds lines around a definition. -/
theorem Aggregate.exists_declaration_eq (a : Aggregate) (typeName : String) :
    ∃ before after, a.declaration typeName =
      before ++ (match nonemptyName? a.name with
        | some _ => a.body ++ ";"
        | none => "typedef " ++ a.body ++ " " ++ typeName ++ ";") ++ after := by
  unfold Aggregate.declaration
  cases a.pack with
  | none =>
    refine ⟨"", "\n", ?_⟩
    cases nonemptyName? a.name <;> simp
  | some pack =>
    refine ⟨"#pragma pack(push, " ++ pack.plain ++ ")\n", "\n#pragma pack(pop)\n", ?_⟩
    cases nonemptyName? a.name <;> simp [String.intercalate_cons_cons, String.append_assoc]

/-- The declaration of an aggregate with a tag defines what the aggregate is called. -/
theorem Aggregate.declaration_of_isTagged {a : Aggregate} (h : a.IsTagged) (typeName : String) :
    ∃ before after,
      a.declaration typeName = before ++ a.called typeName ++ " \x7b" ++ after := by
  obtain ⟨tag, htag⟩ := Option.isSome_iff_exists.mp h
  obtain ⟨before, after, hdeclaration⟩ := a.exists_declaration_eq typeName
  have hhead : bodyHead a.kind a.name = a.called typeName ++ " \x7b" := by
    simp [bodyHead, Aggregate.called, htag]
  rw [htag] at hdeclaration
  refine ⟨before, "\n" ++ String.intercalate "\n" (memberLines "    " a.members ++
    ["\x7d" ++ a.attributes.suffix]) ++ ";" ++ after, ?_⟩
  rw [hdeclaration, Aggregate.body, List.cons_append,
    String.intercalate_cons_of_ne_nil (List.append_ne_nil_of_right_ne_nil _ (List.cons_ne_nil _ _)),
    hhead]
  simp only [String.append_assoc]

/-- The declaration of an aggregate without a tag gives a type name to it. -/
theorem Aggregate.declaration_of_not_isTagged {a : Aggregate} (h : ¬ a.IsTagged)
    (typeName : String) :
    ∃ before after, a.declaration typeName =
      before ++ "typedef " ++ a.body ++ " " ++ a.called typeName ++ ";" ++ after := by
  obtain ⟨before, after, hdeclaration⟩ := a.exists_declaration_eq typeName
  rw [Option.not_isSome_iff_eq_none.mp h] at hdeclaration
  refine ⟨before, after, ?_⟩
  rw [hdeclaration, a.called_of_not_isTagged h]
  simp only [String.append_assoc]

namespace Report

variable {entries : List Entry} {e : Entry} {a : Aggregate} {C : TypeNode → Prop}

/-- The assertions on an entry call its aggregate by its tag or by the name of the entry. -/
theorem assertionLines_eq (h : e.aggregate? = some a) :
    assertionLines e =
      ["_Static_assert(sizeof(" ++ a.called e.name ++ ") == " ++ hexLiteral e.result.size ++ ", \""
          ++ (nonemptyName? a.name).getD e.name ++ " size\");",
       "_Static_assert(_Alignof(" ++ a.called e.name ++ ") == " ++ toString e.result.alignment
          ++ ", \"" ++ (nonemptyName? a.name).getD e.name ++ " alignment\");"]
      ++ e.result.members.filterMap
          (memberAssertion? (a.called e.name) ((nonemptyName? a.name).getD e.name)) ++ [""] := by
  rw [assertionLines, h]
  rfl

/-! ## The declarations of one more entry -/

/-- An entry is about an aggregate. -/
def Entry.isAbout (e : Entry) (a : Aggregate) : Bool :=
  e.aggregate?.any fun own => own.origin == a.origin

theorem Entry.isAbout_eq_true :
    e.isAbout a = true ↔ ∃ own, e.aggregate? = some own ∧ own.origin = a.origin := by
  simp [Entry.isAbout, Option.any_eq_true]

theorem Entry.typeNameOf_of_isAbout (h : e.isAbout a = true) : e.typeNameOf a = e.name := by
  obtain ⟨own, hown, horigin⟩ := Entry.isAbout_eq_true.mp h
  simp [Entry.typeNameOf, hown, horigin]

/-- One declaration more, unless the aggregate is declared already. -/
def declareOnce (e : Entry) (done : List Declared) (a : Aggregate) : List Declared :=
  if isAmong a (done.map (·.aggregate)) then done else done ++ [⟨a, e.typeNameOf a⟩]

theorem subset_foldl_declareOnce (e : Entry) (deps : List Aggregate) (done : List Declared) :
    done ⊆ deps.foldl (declareOnce e) done := by
  induction deps generalizing done with
  | nil => exact List.Subset.refl done
  | cons a deps ih =>
    refine List.Subset.trans ?_ (ih (declareOnce e done a))
    unfold declareOnce
    split
    · exact List.Subset.refl done
    · exact List.subset_append_left done _

/-- A declaration that an entry adds is one that it needs, of an aggregate that was not declared
before, under the name that the entry has for it. -/
theorem cases_of_mem_foldl_declareOnce {deps : List Aggregate} {done : List Declared} {c : Declared}
    (hc : c ∈ deps.foldl (declareOnce e) done) :
    c ∈ done ∨ c.aggregate ∈ deps ∧ c.typeName = e.typeNameOf c.aggregate ∧
      isAmong c.aggregate (done.map (·.aggregate)) = false := by
  induction deps generalizing done with
  | nil => exact .inl hc
  | cons a deps ih =>
    rcases ih hc with hc | ⟨hdeps, hname, hfresh⟩
    · unfold declareOnce at hc
      split at hc
      · exact .inl hc
      · rename_i hfresh
        rcases List.mem_append.mp hc with hc | hc
        · exact .inl hc
        · obtain rfl := List.mem_singleton.mp hc
          exact .inr ⟨List.mem_cons_self, rfl, Bool.eq_false_iff.mpr hfresh⟩
    · refine .inr ⟨List.mem_cons_of_mem a hdeps, hname, ?_⟩
      rw [Bool.eq_false_iff, ne_eq, isAmong_eq_true] at hfresh ⊢
      rintro ⟨b, hb, horigin⟩
      obtain ⟨d, hd, rfl⟩ := List.mem_map.mp hb
      have hkept : d ∈ declareOnce e done a := subset_foldl_declareOnce e [a] done hd
      exact hfresh ⟨d.aggregate, List.mem_map_of_mem hkept, horigin⟩

theorem Entry.aggregate?_eq_some : e.aggregate? = some a ↔ e.node = some (.aggregate a) := by
  unfold Entry.aggregate?
  cases e.node with
  | none => exact iff_of_false nofun nofun
  | some node => cases node <;> simp [TypeNode.asAggregate?]

/-- An entry needs its own aggregate declared when that has no name. -/
theorem mem_dependencies_of_name_eq_none (ha : e.aggregate? = some a) (hname : a.name = none) :
    a ∈ e.dependencies := by
  simp [Entry.dependencies, ha, hname]

theorem declared_concat (entries : List Entry) (e : Entry) :
    declared (entries ++ [e]) = e.dependencies.foldl (declareOnce e) (declared entries) := by
  rw [declared, List.foldl_append]
  rfl

section

variable (hC : Hereditary C) (hapart : ToldApart C)

include hapart

/-- The entry about an aggregate has that very aggregate. -/
theorem aggregate?_of_isAbout (h : ∀ node, e.node = some node → C node) (ha : C (.aggregate a))
    (habout : e.isAbout a = true) : e.aggregate? = some a := by
  obtain ⟨own, hown, horigin⟩ := Entry.isAbout_eq_true.mp habout
  rwa [← hapart own a (h _ (Entry.aggregate?_eq_some.mp hown)) ha horigin]

include hC

/-- What an entry needs declared has a tag, or is its own aggregate and has no name. -/
theorem isTagged_or_of_mem_dependencies (h : ∀ node, e.node = some node → C node)
    (ha : a ∈ e.dependencies) : a.IsTagged ∨ a.name = none ∧ e.aggregate? = some a := by
  cases hnode : e.node with
  | none => simp [Entry.dependencies, Entry.aggregate?, hnode] at ha
  | some node =>
    have htagged : ∀ b ∈ namedDependencies [] node, b.IsTagged := fun b hb =>
      ((collects_node hC hapart node (h node hnode) (declarable_nil C)).tagged b hb).resolve_left
        List.not_mem_nil
    rcases dependencies_eq hnode with hdeps | ⟨own, rfl, hname, hdeps⟩
    · rw [hdeps] at ha
      exact .inl (htagged a ha)
    · rw [hdeps] at ha
      rcases List.mem_append.mp ha with ha | ha
      · exact .inl (htagged a ha)
      · obtain rfl := List.mem_singleton.mp ha
        exact .inr ⟨hname, Entry.aggregate?_eq_some.mpr hnode⟩

/-- What an entry needs declared is declared. -/
theorem mem_declared_of_mem_dependencies
    (h : ∀ e ∈ entries, ∀ node, e.node = some node → C node) (he : e ∈ entries)
    (ha : a ∈ e.dependencies) : a ∈ (declared entries).map (·.aggregate) := by
  induction entries using List.reverseRecOn with
  | nil => exact absurd he List.not_mem_nil
  | append_singleton entries last ih =>
    obtain ⟨hbefore, hlast⟩ := List.forall_mem_append.mp h
    rw [List.forall_mem_singleton] at hlast
    have hdone := declarable_foldl_declareEntry hC hapart hbefore [] (declarable_nil C)
    have hdeps := declarable_dependencies hC hapart hlast
    have hjoin := declarable_foldl_addOnce hapart hdone.1 hdeps.1
    rw [← map_aggregate_declareEntry] at hjoin
    rw [declared, List.foldl_append]
    rcases List.mem_append.mp he with he | he
    · exact hjoin.2.1 (ih hbefore he)
    · obtain rfl := List.mem_singleton.mp he
      exact hjoin.2.2 ha

/-- **The first entry about an aggregate without a name gives it one.**  Nothing else without a tag
is declared. -/
theorem find?_of_mem_declared (h : ∀ e ∈ entries, ∀ node, e.node = some node → C node)
    {c : Declared} (hc : c ∈ declared entries) (hbare : ¬ c.aggregate.IsTagged) :
    c.aggregate.name = none ∧
      (entries.find? fun e => e.isAbout c.aggregate).map (·.name) = some c.typeName := by
  induction entries using List.reverseRecOn with
  | nil => exact absurd hc List.not_mem_nil
  | append_singleton entries e ih =>
    obtain ⟨hbefore, he⟩ := List.forall_mem_append.mp h
    rw [List.forall_mem_singleton] at he
    rw [declared_concat] at hc
    rw [List.find?_append]
    rcases cases_of_mem_foldl_declareOnce hc with hc | ⟨hdep, htypeName, hfresh⟩
    · obtain ⟨hname, hfind⟩ := ih hbefore hc
      obtain ⟨first, hfirst, hfirstName⟩ := Option.map_eq_some_iff.mp hfind
      exact ⟨hname, by rw [hfirst]; exact congrArg some hfirstName⟩
    · obtain ⟨hname, hown⟩ :=
        (isTagged_or_of_mem_dependencies hC hapart he hdep).resolve_left hbare
      have hnode := Entry.aggregate?_eq_some.mp hown
      have habout : e.isAbout c.aggregate = true := Entry.isAbout_eq_true.mpr ⟨_, hown, rfl⟩
      -- An earlier entry about the aggregate would have had it declared.
      have hnone : entries.find? (fun e => e.isAbout c.aggregate) = none := by
        refine List.find?_eq_none.mpr fun e' he' habout' => ?_
        have hown' := aggregate?_of_isAbout hapart (hbefore e' he') (he _ hnode) habout'
        have hdeclared := mem_declared_of_mem_dependencies hC hapart hbefore he'
          (mem_dependencies_of_name_eq_none hown' hname)
        exact Bool.eq_false_iff.mp hfresh (isAmong_eq_true.mpr ⟨_, hdeclared, rfl⟩)
      refine ⟨hname, ?_⟩
      simp [hnone, habout, htypeName, Entry.typeNameOf_of_isAbout habout]

/-- An aggregate with a tag is declared for every entry about it. -/
theorem exists_declared_of_isTagged (h : ∀ e ∈ entries, ∀ node, e.node = some node → C node)
    (he : e ∈ entries) (ha : e.aggregate? = some a) (htagged : a.IsTagged) :
    ∃ c ∈ declared entries, c.aggregate = a := by
  have hmem := (inOrder_declared hC hapart h).2 e he _ (Entry.aggregate?_eq_some.mp ha) a .self
    htagged
  exact List.mem_map.mp hmem

/-- **When an aggregate is declared for the assertions on an entry**: when it has a tag, or when it
has no name and the entry has the name of the first entry about it. -/
theorem exists_declared_called_iff (h : ∀ e ∈ entries, ∀ node, e.node = some node → C node)
    (he : e ∈ entries) (ha : e.aggregate? = some a) :
    (∃ c ∈ declared entries, c.aggregate = a ∧ a.called c.typeName = a.called e.name) ↔
      a.IsTagged ∨ a.name = none ∧
        (entries.find? fun e' => e'.isAbout a).map (·.name) = some e.name := by
  by_cases htagged : a.IsTagged
  · obtain ⟨c, hc, hca⟩ := exists_declared_of_isTagged hC hapart h he ha htagged
    exact iff_of_true ⟨c, hc, hca, a.called_of_isTagged htagged _ _⟩ (.inl htagged)
  constructor
  · rintro ⟨c, hc, rfl, hcalled⟩
    obtain ⟨hname, hfind⟩ := find?_of_mem_declared hC hapart h hc htagged
    rw [c.aggregate.called_of_not_isTagged htagged, c.aggregate.called_of_not_isTagged htagged]
      at hcalled
    exact .inr ⟨hname, hcalled ▸ hfind⟩
  · rintro (htagged' | ⟨hname, hfind⟩)
    · exact absurd htagged' htagged
    obtain ⟨c, hc, rfl⟩ := List.mem_map.mp (mem_declared_of_mem_dependencies hC hapart h he
      (mem_dependencies_of_name_eq_none ha hname))
    obtain ⟨-, hfind'⟩ := find?_of_mem_declared hC hapart h hc htagged
    have hsame : c.typeName = e.name := Option.some.inj (hfind'.symm.trans hfind)
    exact ⟨c, hc, rfl, congrArg _ hsame⟩

end

/-! ## The lines of a report -/

/-- The lines of a report. -/
def sourceLines (entries : List Entry) : List String :=
  preamble ++ (declared entries).flatMap Declared.lines ++ entries.flatMap assertionLines

theorem source_eq (entries : List Entry) :
    source entries = Text.stripEnd (String.intercalate "\n" (sourceLines entries)) ++ "\n" := rfl

/-- Every declaration stands before the assertions on every entry. -/
theorem exists_sourceLines_eq {c : Declared} (hc : c ∈ declared entries) (he : e ∈ entries) :
    ∃ before between after,
      sourceLines entries = before ++ c.lines ++ between ++ assertionLines e ++ after := by
  obtain ⟨earlier, later, hdeclared⟩ := List.append_of_mem hc
  obtain ⟨first, last, hentries⟩ := List.append_of_mem he
  refine ⟨preamble ++ earlier.flatMap Declared.lines,
    later.flatMap Declared.lines ++ first.flatMap assertionLines, last.flatMap assertionLines, ?_⟩
  have hfirst : entries.flatMap assertionLines =
      first.flatMap assertionLines ++ assertionLines e ++ last.flatMap assertionLines := by
    conv_lhs => rw [hentries]
    simp
  rw [sourceLines, hdeclared, hfirst]
  simp

/-- A report declares the aggregate of an entry, under what the assertions on the entry call it,
before these assertions. -/
def DeclaredFor (entries : List Entry) (e : Entry) (a : Aggregate) : Prop :=
  ∃ c ∈ declared entries, c.aggregate = a ∧ a.called c.typeName = a.called e.name ∧
    ∃ before between after,
      sourceLines entries = before ++ c.lines ++ between ++ assertionLines e ++ after

/-- **Which assertions have their type declared.**  In a report on structs and unions of a document,
whatever their layouts, the type of an entry is declared before the assertions on it exactly when it
has a tag, or when it has no name and the entry has the name of the first entry about it. -/
theorem declaredFor_iff {source : String} {v : Json} {d : Document}
    (hd : Document.ofJson source v = .ok d)
    (hentries : ∀ e ∈ entries, ∃ a, e.node = some (.aggregate a) ∧ (e.name, .aggregate a) ∈ d.types)
    (he : e ∈ entries) (ha : e.node = some (.aggregate a)) :
    DeclaredFor entries e a ↔ a.IsTagged ∨ a.name = none ∧
      (entries.find? fun e' => e'.isAbout a).map (·.name) = some e.name := by
  have hC := hereditary_parts fun root => ∃ name, (name, root) ∈ d.types
  have hapart : ToldApart fun t => ∃ root, (∃ name, (name, root) ∈ d.types) ∧ t.IsPartOf root := by
    rintro b b' ⟨root, ⟨name, hroot⟩, hb⟩ ⟨root', ⟨name', hroot'⟩, hb'⟩ horigin
    exact Document.toldApart_of_ofJson hd b b' ⟨_, hroot, hb⟩ ⟨_, hroot', hb'⟩ horigin
  have hinside : ∀ e ∈ entries, ∀ node, e.node = some node →
      ∃ root, (∃ name, (name, root) ∈ d.types) ∧ node.IsPartOf root := by
    intro e he node hnode
    obtain ⟨b, hb, hmem⟩ := hentries e he
    rw [hnode] at hb
    obtain rfl := Option.some.inj hb
    exact ⟨_, ⟨e.name, hmem⟩, .self⟩
  rw [← exists_declared_called_iff hC hapart hinside he (Entry.aggregate?_eq_some.mpr ha)]
  constructor
  · rintro ⟨c, hc, hca, hcalled, -⟩
    exact ⟨c, hc, hca, hcalled⟩
  · rintro ⟨c, hc, hca, hcalled⟩
    exact ⟨c, hc, hca, hcalled, exists_sourceLines_eq hc he⟩

/-- A document with a struct whose name is empty and one that has none. -/
def gauges : Json.Fields :=
  [("sample", .object
      [("kind", .text "struct"),
       ("name", .text ""),
       ("members", .array [.object [("name", .text "x"), ("type", .text "int")]])]),
   ("level", .object
      [("kind", .text "struct"),
       ("name", .null),
       ("members", .array [.object [("name", .text "x"), ("type", .text "int")]])])]

/-- A struct of the document, with its name and that of its entry. -/
def gauge (name : Option String) (entry : String) : Aggregate where
  kind := .struct
  members := [⟨.primitive ⟨"int", none, none⟩, some "x", .none⟩]
  name := name
  pack := none
  attributes := .none
  origin := .written ["types", entry]

/-- The document once it is read. -/
def gaugesDocument : Document where
  types := [("sample", .aggregate (gauge (some "") "sample")),
    ("level", .aggregate (gauge none "level"))]
  profile := none
  source := "gauges.json"

/-- The entry of a struct of the document. -/
def gaugeEntry (name : Option String) (entry : String) : RecordLayout.Entry where
  name := entry
  spec := .aggregate
    { kind := .struct
      members :=
        [.member (.named ["types", entry, "members[0]", "type"] "int") (some "x") (.ok .none)]
      name := name
      pack := none
      attributes := .ok .none
      place := ["types", entry] }
  claims := some .struct

theorem entriesOf_gauges : Document.entriesOf "gauges.json" gauges =
    [gaugeEntry (some "") "sample", gaugeEntry none "level"] := by
  cbv

theorem ofJson_gauges :
    Document.ofJson "gauges.json" (.object [("types", .object gauges)]) = .ok gaugesDocument := by
  have hint : referenceOf? [gaugeEntry (some "") "sample", gaugeEntry none "level"]
      (TypeName.normalize "int") = some (.primitive "int") := by decide
  have hresolve (name : Option String) (entry : String) :
      (gaugeEntry name entry).spec.resolve "gauges.json" (lookUp "gauges.json"
        [gaugeEntry (some "") "sample", gaugeEntry none "level"] (resolveAnew "gauges.json"
          [gaugeEntry (some "") "sample", gaugeEntry none "level"] [entry])) =
        .ok (.aggregate (gauge name entry)) := by
    rw [gaugeEntry.eq_def name entry]
    simp only [Spec.resolve, AggregateSpec.resolve, resolveMembers, MemberSpec.resolve, lookUp,
      hint]
    rfl
  have hsample : resolveAnew "gauges.json" [gaugeEntry (some "") "sample", gaugeEntry none "level"]
      [] "sample" = .ok (.aggregate (gauge (some "") "sample")) := by
    rw [resolveAnew_of_find?_eq_some List.not_mem_nil rfl]
    exact hresolve (some "") "sample"
  have hlevel : resolveAnew "gauges.json" [gaugeEntry (some "") "sample", gaugeEntry none "level"]
      [] "level" = .ok (.aggregate (gauge none "level")) := by
    rw [resolveAnew_of_find?_eq_some List.not_mem_nil rfl]
    exact hresolve none "level"
  refine Document.ofJson_of_types ?_
  rw [entriesOf_gauges, resolveAll_eq_mapM]
  refine Except.mapM_eq_ok.mpr (.cons ?_ (.cons ?_ .nil))
  · exact congrArg _ hsample
  · exact congrArg _ hlevel

/-- The struct that has no name is declared for the assertions on its entry. -/
theorem declaredFor_level :
    DeclaredFor [⟨"level", some (.aggregate (gauge none "level")), default, none⟩]
      ⟨"level", some (.aggregate (gauge none "level")), default, none⟩ (gauge none "level") := by
  refine (declaredFor_iff ofJson_gauges ?_ List.mem_cons_self rfl).mpr (.inr ⟨rfl, rfl⟩)
  intro e he
  obtain rfl := List.mem_singleton.mp he
  exact ⟨_, rfl, List.mem_cons_of_mem _ List.mem_cons_self⟩

/-- **No declaration is made for a struct whose name is empty**, although it lays out and its size
is asserted. -/
theorem not_declaredFor_sample :
    Document.ofJson "gauges.json" (.object [("types", .object gauges)]) = .ok gaugesDocument ∧
    ("sample", .aggregate (gauge (some "") "sample")) ∈ gaugesDocument.types ∧
    ∃ r, ((Engine.layout .lp64 (.aggregate (gauge (some "") "sample"))).run
        (Engine.make [] none)).1 = .ok r ∧
      let e : Entry := ⟨"sample", some (.aggregate (gauge (some "") "sample")), r, none⟩
      declared [e] = [] ∧ ¬ DeclaredFor [e] e (gauge (some "") "sample") := by
  refine ⟨ofJson_gauges, List.mem_cons_self, ?_⟩
  have hok : ((Engine.layout .lp64 (.aggregate (gauge (some "") "sample"))).run
      (Engine.make [] none)).1.isOk = true := by decide
  obtain ⟨r, hr⟩ := Except.exists_of_isOk hok
  refine ⟨r, hr, rfl, ?_⟩
  rintro ⟨c, hc, -⟩
  exact absurd hc List.not_mem_nil

end Report

end RecordLayout
