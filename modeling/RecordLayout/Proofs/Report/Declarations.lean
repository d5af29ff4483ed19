import RecordLayout.Proofs.Document.Origins
import RecordLayout.Report.Assertions

/-!
# Declared before use

A report declares the aggregates with a tag that its types contain.  The walk over a type comes back
to an aggregate after all that it contains, and passes over one that it has met before; the walks
over several types are joined in the same way.  So each aggregate is declared once, and after those
that it contains.

An aggregate is recognised by its origin.  This is sound only for types in which aggregates with one
origin are equal (`ToldApart`): otherwise an aggregate would be passed over for another one.

## Main definitions

* `InOrder` says that every aggregate of a list comes once and after those it contains;
* `Report.Collects` says what a walk adds to the aggregates that were found before.

## Main results

* `InOrder.exists_split`: where an aggregate stands in such a list;
* `Report.collects_node`: the walk over a type;
* `Report.inOrder_declared`: what a report declares.
-/

namespace RecordLayout

/-- An aggregate has a tag: a name that is not empty. -/
def Aggregate.IsTagged (a : Aggregate) : Prop := (nonemptyName? a.name).isSome = true

/-- Aggregates in an order in which they can be declared: none comes twice, and each comes after the
tagged ones that it contains. -/
inductive InOrder : List Aggregate → Prop
  | nil : InOrder []
  | snoc {found : List Aggregate} {a : Aggregate} (before : InOrder found)
      (fresh : ∀ b ∈ found, b.origin ≠ a.origin)
      (inner : ∀ b : Aggregate, b.IsInside a → b.IsTagged → b ≠ a → b ∈ found) :
      InOrder (found ++ [a])

/-- Where an aggregate stands in an order: its origin is found nowhere else, and what it contains
comes earlier. -/
theorem InOrder.exists_split {found : List Aggregate} (h : InOrder found) {a : Aggregate}
    (ha : a ∈ found) :
    ∃ before after, found = before ++ a :: after ∧
      (∀ b ∈ before ++ after, b.origin ≠ a.origin) ∧
      ∀ b : Aggregate, b.IsInside a → b.IsTagged → b ≠ a → b ∈ before := by
  induction h with
  | nil => exact absurd ha List.not_mem_nil
  | @snoc found c before fresh inner ih =>
    rcases List.mem_append.mp ha with ha | ha
    · obtain ⟨earlier, later, rfl, hother, hinner⟩ := ih ha
      refine ⟨earlier, later ++ [c], by simp, fun b hb => ?_, hinner⟩
      rw [← List.append_assoc] at hb
      rcases List.mem_append.mp hb with hb | hb
      · exact hother b hb
      · rw [List.mem_singleton.mp hb]
        exact (fresh a (by simp)).symm
    · obtain rfl := List.mem_singleton.mp ha
      exact ⟨found, [], rfl, by simpa using fresh, inner⟩

/-- Aggregates of a class of types in an order in which they can be declared. -/
structure Declarable (C : TypeNode → Prop) (found : List Aggregate) : Prop where
  inOrder : InOrder found
  inside : ∀ a ∈ found, C (.aggregate a)

theorem declarable_nil (C : TypeNode → Prop) : Declarable C [] := ⟨.nil, by simp⟩

namespace Report

/-! ## Adding an aggregate -/

/-- Adds an aggregate to others unless it is among them. -/
def addOnce (found : List Aggregate) (a : Aggregate) : List Aggregate :=
  if isAmong a found then found else found ++ [a]

theorem isAmong_eq_true {a : Aggregate} {others : List Aggregate} :
    isAmong a others = true ↔ ∃ b ∈ others, b.origin = a.origin := by
  simp [isAmong]

theorem subset_addOnce (found : List Aggregate) (a : Aggregate) : found ⊆ addOnce found a := by
  unfold addOnce
  split
  · exact List.Subset.refl found
  · exact List.subset_append_left found [a]

theorem mem_of_mem_addOnce {found : List Aggregate} {a b : Aggregate} (h : b ∈ addOnce found a) :
    b ∈ found ∨ b = a := by
  unfold addOnce at h
  split at h
  · exact .inl h
  · simpa using h

/-- An aggregate with a tag is added after what its members contain. -/
theorem aggregateDependencies_eq (found : List Aggregate) (a : Aggregate) :
    aggregateDependencies found a =
      if (nonemptyName? a.name).isSome = true then addOnce (membersDependencies found a.members) a
      else membersDependencies found a.members := by
  obtain ⟨kind, members, name, pack, attributes, origin⟩ := a
  rw [aggregateDependencies, addOnce]
  cases (nonemptyName? name).isSome with
  | false => rfl
  | true =>
    rw [Bool.true_and, if_pos rfl]
    dsimp only
    cases isAmong _ (membersDependencies found members) with
    | false => rfl
    | true => rfl

/-- The declarations after one more entry are those of the aggregates it needs, each added once. -/
theorem map_aggregate_declareEntry (done : List Declared) (e : Entry) :
    (declareEntry done e).map (·.aggregate) =
      e.dependencies.foldl addOnce (done.map (·.aggregate)) := by
  refine (List.foldl_hom (fun done : List Declared => done.map (·.aggregate))
    fun done a => ?_).symm
  unfold addOnce
  split
  · rfl
  · simp

/-- What an entry needs declared: what the walk over its type finds, and the type itself if it is an
aggregate without a name. -/
theorem dependencies_eq {e : Entry} {node : TypeNode} (hnode : e.node = some node) :
    e.dependencies = namedDependencies [] node ∨
      ∃ own, node = .aggregate own ∧ own.name = none ∧
        e.dependencies = namedDependencies [] node ++ [own] := by
  unfold Entry.dependencies Entry.aggregate?
  rw [hnode]
  cases node with
  | aggregate own =>
    cases hname : own.name with
    | none => exact .inr ⟨own, rfl, hname, by simp [TypeNode.asAggregate?, hname]⟩
    | some name => exact .inl (by simp [TypeNode.asAggregate?, hname])
  | _ => exact .inl rfl

section

variable {C : TypeNode → Prop} {found result : List Aggregate} {a : Aggregate}

/-- An aggregate that is told apart from those found is among them after it is added. -/
theorem mem_addOnce (hapart : ToldApart C) (hfound : Declarable C found) (ha : C (.aggregate a)) :
    a ∈ addOnce found a := by
  unfold addOnce
  split
  · rename_i hamong
    obtain ⟨b, hb, horigin⟩ := isAmong_eq_true.mp hamong
    obtain rfl := hapart b a (hfound.inside b hb) ha horigin
    exact hb
  · exact List.mem_append_right found List.mem_cons_self

/-- Adding an aggregate after all that it contains keeps the order. -/
theorem declarable_addOnce (h : Declarable C found) (ha : C (.aggregate a))
    (hinner : ∀ b : Aggregate, b.IsInside a → b.IsTagged → b ≠ a → b ∈ found) :
    Declarable C (addOnce found a) where
  inOrder := by
    unfold addOnce
    split
    · exact h.inOrder
    · rename_i hamong
      refine .snoc h.inOrder (fun b hb horigin => hamong ?_) hinner
      exact isAmong_eq_true.mpr ⟨b, hb, horigin⟩
  inside b hb := by
    rcases mem_of_mem_addOnce hb with hb | rfl
    · exact h.inside b hb
    · exact ha

/-! ## The walk over a type -/

/-- What a walk makes of the aggregates that were found before: it adds all tagged aggregates that
are wanted, and tagged ones only. -/
structure Collects (C : TypeNode → Prop) (found result : List Aggregate)
    (wanted : Aggregate → Prop) : Prop where
  declarable : Declarable C result
  subset : found ⊆ result
  tagged : ∀ a ∈ result, a ∈ found ∨ a.IsTagged
  complete : ∀ a, wanted a → a.IsTagged → a ∈ result

namespace Collects

variable {middle : List Aggregate} {wanted wanted' : Aggregate → Prop}

/-- Nothing is added where nothing is wanted. -/
theorem nothing (h : Declarable C found) (hwanted : ∀ a, ¬ wanted a) :
    Collects C found found wanted where
  declarable := h
  subset := List.Subset.refl found
  tagged _ ha := .inl ha
  complete a ha := absurd ha (hwanted a)

theorem imp (h : Collects C found result wanted) (himp : ∀ a, wanted' a → wanted a) :
    Collects C found result wanted' :=
  { h with complete := fun a ha => h.complete a (himp a ha) }

/-- Two walks, the second of which goes on from what the first one found. -/
theorem trans (h : Collects C found middle wanted) (h' : Collects C middle result wanted') :
    Collects C found result fun a => wanted a ∨ wanted' a where
  declarable := h'.declarable
  subset := List.Subset.trans h.subset h'.subset
  tagged a ha := by
    rcases h'.tagged a ha with ha | ha
    · exact h.tagged a ha
    · exact .inr ha
  complete a ha htagged := by
    rcases ha with ha | ha
    · exact h'.subset (h.complete a ha htagged)
    · exact h'.complete a ha htagged

/-- An aggregate is added after the aggregates in the types of its members. -/
theorem addOnce (hapart : ToldApart C) (ha : C (.aggregate a)) (htagged : a.IsTagged)
    (h : Collects C found result fun b =>
      ∃ x ∈ a.members, (TypeNode.aggregate b).IsPartOf x.type) :
    Collects C found (addOnce result a) fun b => b.IsInside a where
  declarable := by
    refine declarable_addOnce h.declarable ha fun b hb htagged hne => ?_
    cases hb with
    | self => exact absurd rfl hne
    | member mem inside => exact h.complete b ⟨_, mem, inside⟩ htagged
  subset := List.Subset.trans h.subset (subset_addOnce result a)
  tagged b hb := by
    rcases mem_of_mem_addOnce hb with hb | rfl
    · exact h.tagged b hb
    · exact .inr htagged
  complete b hb htagged := by
    cases hb with
    | self => exact mem_addOnce hapart h.declarable ha
    | member mem inside => exact subset_addOnce result a (h.complete b ⟨_, mem, inside⟩ htagged)

end Collects

/-- The types of members are walked over one after another. -/
theorem collects_members {xs : List Member} (h : ∀ x ∈ xs, ∀ {found : List Aggregate},
      Declarable C found → Collects C found (namedDependencies found x.type) fun a =>
        (TypeNode.aggregate a).IsPartOf x.type) {found : List Aggregate}
    (hfound : Declarable C found) :
    Collects C found (membersDependencies found xs) fun a =>
      ∃ x ∈ xs, (TypeNode.aggregate a).IsPartOf x.type := by
  induction xs generalizing found with
  | nil => exact .nothing hfound (by simp)
  | cons x xs ih =>
    rw [List.forall_mem_cons] at h
    obtain ⟨type, name, attributes⟩ := x
    have hfirst := h.1 hfound
    refine (hfirst.trans (ih h.2 hfirst.declarable)).imp ?_
    rintro a ⟨x, hx, ha⟩
    rcases List.mem_cons.mp hx with rfl | hx
    · exact .inl ha
    · exact .inr ⟨x, hx, ha⟩

variable (hC : Hereditary C) (hapart : ToldApart C)

include hC hapart

/-- **The walk over a type** finds the tagged aggregates that the type contains, each after those
that it contains itself. -/
theorem collects_node (node : TypeNode) (h : C node) {found : List Aggregate}
    (hfound : Declarable C found) :
    Collects C found (namedDependencies found node) fun a =>
      (TypeNode.aggregate a).IsPartOf node := by
  induction node using TypeNode.induction generalizing found with
  | array e dims ih =>
    refine (ih (hC.array h) hfound).imp fun a ha => ?_
    cases ha with
    | array inside => exact inside
  | flexibleArray e ih =>
    refine (ih (hC.flexibleArray h) hfound).imp fun a ha => ?_
    cases ha with
    | flexibleArray inside => exact inside
  | aggregate a ih =>
    have hmembers := collects_members (fun x hx _ => ih x hx (hC.aggregate h x hx)) hfound
    rw [namedDependencies, aggregateDependencies_eq]
    split
    · rename_i htagged
      exact hmembers.addOnce hapart h htagged
    · rename_i htagged
      refine { hmembers with complete := fun b hb hb' => ?_ }
      cases hb with
      | self => exact absurd hb' htagged
      | member mem inside => exact hmembers.complete b ⟨_, mem, inside⟩ hb'
  | primitive | bitfield | incomplete | unknown => exact .nothing hfound fun _ h => by cases h

/-! ## Several types -/

/-- What an entry needs declared comes in order and has all that its type contains. -/
theorem declarable_dependencies {e : Entry} (h : ∀ node, e.node = some node → C node) :
    Declarable C e.dependencies ∧ ∀ node, e.node = some node → ∀ a : Aggregate,
      (TypeNode.aggregate a).IsPartOf node → a.IsTagged → a ∈ e.dependencies := by
  cases hnode : e.node with
  | none =>
    have he : e.dependencies = [] := by simp [Entry.dependencies, Entry.aggregate?, hnode]
    rw [he]
    exact ⟨declarable_nil C, nofun⟩
  | some node =>
    obtain ⟨hdeclarable, -, htagged, hcomplete⟩ :=
      collects_node hC hapart node (h node hnode) (declarable_nil C)
    rcases dependencies_eq hnode with he | ⟨own, rfl, hname, he⟩
    · rw [he]
      refine ⟨hdeclarable, ?_⟩
      rintro _ ⟨⟩
      exact hcomplete
    · -- An aggregate without a name is not found by the walk, but nothing else can have its origin.
      have hbare : ¬ own.IsTagged := by simp [Aggregate.IsTagged, nonemptyName?, hname]
      have hown := h (.aggregate own) hnode
      rw [he]
      refine ⟨⟨.snoc hdeclarable.inOrder (fun b hb horigin => ?_) fun b hb htagged _ =>
        hcomplete b hb htagged, List.forall_mem_append.mpr ⟨hdeclarable.inside, ?_⟩⟩, ?_⟩
      · obtain rfl := hapart b own (hdeclarable.inside b hb) hown horigin
        exact hbare ((htagged b hb).resolve_left List.not_mem_nil)
      · exact List.forall_mem_singleton.mpr hown
      · rintro _ ⟨⟩ a ha htagged
        exact List.mem_append_left _ (hcomplete a ha htagged)

omit hC in
/-- **Two orders are joined**: what the second one has in addition is added in its order. -/
theorem declarable_foldl_addOnce {deps : List Aggregate} (h : Declarable C found)
    (hdeps : Declarable C deps) :
    Declarable C (deps.foldl addOnce found) ∧ found ⊆ deps.foldl addOnce found ∧
      deps ⊆ deps.foldl addOnce found := by
  obtain ⟨horder, hinside⟩ := hdeps
  induction horder with
  | nil => exact ⟨h, List.Subset.refl found, List.nil_subset _⟩
  | @snoc earlier a before fresh inner ih =>
    obtain ⟨hearlier, ha⟩ := List.forall_mem_append.mp hinside
    rw [List.forall_mem_singleton] at ha
    obtain ⟨hdeclarable, hsubset, hdeps⟩ := ih hearlier
    have hgrow := subset_addOnce (earlier.foldl addOnce found) a
    rw [List.foldl_append]
    refine ⟨declarable_addOnce hdeclarable ha fun b hb htagged hne =>
      hdeps (inner b hb htagged hne), List.Subset.trans hsubset hgrow, ?_⟩
    refine List.append_subset.mpr ⟨List.Subset.trans hdeps hgrow, ?_⟩
    exact List.cons_subset.mpr ⟨mem_addOnce hapart hdeclarable ha, List.nil_subset _⟩

/-- Declarations are kept and gone on with in order, whatever entries come next. -/
theorem declarable_foldl_declareEntry {entries : List Entry}
    (h : ∀ e ∈ entries, ∀ node, e.node = some node → C node) (done : List Declared)
    (hdone : Declarable C (done.map (·.aggregate))) :
    Declarable C ((entries.foldl declareEntry done).map (·.aggregate)) ∧
      done.map (·.aggregate) ⊆ (entries.foldl declareEntry done).map (·.aggregate) ∧
      ∀ e ∈ entries, ∀ node, e.node = some node → ∀ a : Aggregate,
        (TypeNode.aggregate a).IsPartOf node → a.IsTagged →
        a ∈ (entries.foldl declareEntry done).map (·.aggregate) := by
  induction entries generalizing done with
  | nil => exact ⟨hdone, List.Subset.refl _, by simp⟩
  | cons e entries ih =>
    rw [List.forall_mem_cons] at h
    obtain ⟨hdeps, hcomplete⟩ := declarable_dependencies hC hapart h.1
    have hnext := declarable_foldl_addOnce hapart hdone hdeps
    rw [← map_aggregate_declareEntry] at hnext
    obtain ⟨hdeclarable, hsubset, hdepsSubset⟩ := hnext
    obtain ⟨hall, hkept, hrest⟩ := ih h.2 (declareEntry done e) hdeclarable
    refine ⟨hall, List.Subset.trans hsubset hkept, List.forall_mem_cons.mpr ⟨?_, hrest⟩⟩
    intro node hnode a ha htagged
    exact hkept (hdepsSubset (hcomplete node hnode a ha htagged))

end

/-- **What a report declares** comes in order and has all that its types contain, if origins tell
the aggregates in its types apart. -/
theorem inOrder_declared {entries : List Entry} {C : TypeNode → Prop} (hC : Hereditary C)
    (hapart : ToldApart C) (h : ∀ e ∈ entries, ∀ node, e.node = some node → C node) :
    InOrder ((declared entries).map (·.aggregate)) ∧
      ∀ e ∈ entries, ∀ node, e.node = some node → ∀ a : Aggregate,
        (TypeNode.aggregate a).IsPartOf node → a.IsTagged →
        a ∈ (declared entries).map (·.aggregate) := by
  obtain ⟨hdeclarable, -, hcomplete⟩ :=
    declarable_foldl_declareEntry hC hapart h [] (declarable_nil C)
  exact ⟨hdeclarable.inOrder, hcomplete⟩

end Report

/-! ## Types of documents -/

/-- Documents that were read, with marks that tell the origins in each from those in the others. -/
structure Document.ToldApart {ι : Type} (mark : ι → Origin → Origin) (documents : ι → Document) :
    Prop where
  read : ∀ i, ∃ source v, Document.ofJson source v = .ok (documents i)
  apart : ∀ i j o o', mark i o = mark j o' → i = j ∧ o = o'

/-- A type is found in one of several documents, by name or within another type, and has the mark of
that document. -/
def Document.Holds {ι : Type} (mark : ι → Origin → Origin) (documents : ι → Document)
    (t : TypeNode) : Prop :=
  ∃ i s, t = TypeNode.relabelled (mark i) s ∧ ∃ root ∈ (documents i).types, s.IsPartOf root.2

section Documents

variable {ι : Type} {mark : ι → Origin → Origin} {documents : ι → Document}

theorem Document.hereditary_holds : Hereditary (Document.Holds mark documents) := by
  have hpart {t u : TypeNode} (ht : Document.Holds mark documents t) (hu : u.IsPartOf t) :
      Document.Holds mark documents u := by
    obtain ⟨i, s, rfl, root, hroot, hs⟩ := ht
    obtain ⟨s', rfl, hs'⟩ := hu.exists_of_relabelled
    exact ⟨i, s', rfl, root, hroot, hs'.trans hs⟩
  exact ⟨fun h => hpart h (.array .self), fun h => hpart h (.flexibleArray .self),
    fun h x hx => hpart h (.member hx .self)⟩

/-- Marked origins tell the aggregates of several documents apart. -/
theorem Document.ToldApart.toldApart_holds (h : Document.ToldApart mark documents) :
    RecordLayout.ToldApart (Document.Holds mark documents) := by
  have hmarked {a : Aggregate} {t : TypeNode} {i : ι}
      (ha : TypeNode.aggregate a = t.relabelled (mark i)) :
      ∃ b : Aggregate, t = .aggregate b ∧ a = b.relabelled (mark i) := by
    cases t with
    | aggregate b => exact ⟨b, rfl, TypeNode.aggregate.inj ha⟩
    | _ => exact absurd ha nofun
  rintro a b ⟨i, s, ha, root, hroot, hs⟩ ⟨j, t, hb, root', hroot', ht⟩ heq
  obtain ⟨a, rfl, rfl⟩ := hmarked ha
  obtain ⟨b, rfl, rfl⟩ := hmarked hb
  rw [Aggregate.relabelled_origin, Aggregate.relabelled_origin] at heq
  obtain ⟨rfl, horigin⟩ := h.apart _ _ _ _ heq
  obtain ⟨source, v, hread⟩ := h.read i
  have hsame := toldApart_of_ofJson hread a b ⟨root, hroot, hs⟩ ⟨root', hroot', ht⟩ horigin
  rw [hsame]

end Documents

namespace Report

/-- **Aggregates are declared once and before their use.**  In a report on types of documents, a
struct or union with a tag that some type contains by value is declared once, and each other one
that it contains itself is declared before it. -/
theorem declared_before_use {ι : Type} {mark : ι → Origin → Origin} {documents : ι → Document}
    (h : Document.ToldApart mark documents) {entries : List Entry}
    (hentries : ∀ e ∈ entries, ∀ node, e.node = some node → Document.Holds mark documents node)
    {e : Entry} (he : e ∈ entries) {node : TypeNode} (hnode : e.node = some node) {a : Aggregate}
    (ha : (TypeNode.aggregate a).IsPartOf node) (htagged : a.IsTagged) :
    ∃ before after, (declared entries).map (·.aggregate) = before ++ a :: after ∧
      (∀ b ∈ before ++ after, b.origin ≠ a.origin) ∧
      ∀ b : Aggregate, b.IsInside a → b.IsTagged → b ≠ a → b ∈ before := by
  obtain ⟨horder, hcomplete⟩ :=
    inOrder_declared Document.hereditary_holds h.toldApart_holds hentries
  exact horder.exists_split (hcomplete e he node hnode a ha htagged)

/-- The types of a drawing.  A figure contains points directly and in a struct without a name. -/
def drawing : Json.Fields :=
  [("figure", .object
      [("kind", .text "struct"),
       ("members", .array
         [.object
           [("type", .object
              [("kind", .text "struct"),
               ("members", .array
                 [.object [("name", .text "corners"), ("type", .text "point"),
                           ("dims", .array [.int 4])]])])],
          .object [("name", .text "centre"), ("type", .text "struct point")]])]),
   ("point", .object
      [("kind", .text "struct"),
       ("members", .array [.object [("name", .text "x"), ("type", .text "int")]])])]

/-- The points of a drawing. -/
def point : Aggregate where
  kind := .struct
  members := [⟨.primitive ⟨"int", none, none⟩, some "x", .none⟩]
  name := some "point"
  pack := none
  attributes := .none
  origin := .written ["types", "point"]

/-- The corners of a figure. -/
def corners : Aggregate where
  kind := .struct
  members := [⟨.array (.aggregate point) [.int 4], some "corners", .none⟩]
  name := none
  pack := none
  attributes := .none
  origin := .written ["types", "figure", "members[0]", "type"]

/-- The figures of a drawing. -/
def figure : Aggregate where
  kind := .struct
  members := [⟨.aggregate corners, none, .none⟩, ⟨.aggregate point, some "centre", .none⟩]
  name := some "figure"
  pack := none
  attributes := .none
  origin := .written ["types", "figure"]

/-- A drawing as a document. -/
def drawingDocument : Document where
  types := [("figure", .aggregate figure), ("point", .aggregate point)]
  profile := none
  source := "drawing.json"

/-- The entries of a drawing. -/
def drawingEntries : List RecordLayout.Entry :=
  [⟨"figure", .aggregate
      { kind := .struct
        members :=
          [.member (.aggregate
              { kind := .struct
                members :=
                  [.member (.shaped
                      (.named ["types", "figure", "members[0]", "type", "members[0]", "type"]
                        "point")
                      (.ok (.dimensions [.int 4]))) (some "corners") (.ok .none)]
                name := none
                pack := none
                attributes := .ok .none
                place := ["types", "figure", "members[0]", "type"] }) none (.ok .none),
           .member (.named ["types", "figure", "members[1]", "type"] "struct point")
             (some "centre") (.ok .none)]
        name := some "figure"
        pack := none
        attributes := .ok .none
        place := ["types", "figure"] }, some .struct⟩,
   ⟨"point", .aggregate
      { kind := .struct
        members :=
          [.member (.named ["types", "point", "members[0]", "type"] "int") (some "x") (.ok .none)]
        name := some "point"
        pack := none
        attributes := .ok .none
        place := ["types", "point"] }, some .struct⟩]

theorem entriesOf_drawing : Document.entriesOf "drawing.json" drawing = drawingEntries := by
  cbv

theorem ofJson_drawing :
    Document.ofJson "drawing.json" (.object [("types", .object drawing)]) = .ok drawingDocument := by
  have hint : referenceOf? drawingEntries (TypeName.normalize "int") =
      some (.primitive "int") := by decide
  have hname : referenceOf? drawingEntries (TypeName.normalize "point") =
      some (.entry "point") := by decide
  have htag : referenceOf? drawingEntries (TypeName.normalize "struct point") =
      some (.entry "point") := by decide
  have hpoint (active : List String) (h : "point" ∉ active) :
      resolveAnew "drawing.json" drawingEntries active "point" = .ok (.aggregate point) := by
    rw [resolveAnew_of_find?_eq_some h rfl]
    simp only [Spec.resolve, AggregateSpec.resolve, resolveMembers, MemberSpec.resolve, lookUp,
      hint]
    rfl
  have hfigure : resolveAnew "drawing.json" drawingEntries [] "figure" =
      .ok (.aggregate figure) := by
    rw [resolveAnew_of_find?_eq_some List.not_mem_nil rfl]
    simp only [Spec.resolve, AggregateSpec.resolve, resolveMembers, MemberSpec.resolve, lookUp,
      hname, htag, hpoint ["figure"] (by decide)]
    rfl
  refine Document.ofJson_of_types ?_
  rw [entriesOf_drawing, resolveAll_eq_mapM]
  refine Except.mapM_eq_ok.mpr (.cons ?_ (.cons ?_ .nil))
  · exact congrArg _ hfigure
  · exact congrArg _ (hpoint [] List.not_mem_nil)

/-- The mark of one of two documents. -/
def sideMark (side : Bool) : Origin → Origin
  | .written segments => .written (toString side :: segments)
  | .recorded offset => .recorded (2 * offset + side.toNat)

theorem sideMark_apart (i j : Bool) (o o' : Origin) (h : sideMark i o = sideMark j o') :
    i = j ∧ o = o' := by
  cases o with
  | written segments =>
    cases o' with
    | written segments' =>
      obtain ⟨hside, rfl⟩ := List.cons.inj (Origin.written.inj h)
      have hsides : ∀ i j : Bool, toString i = toString j → i = j := by decide
      exact ⟨hsides i j hside, rfl⟩
    | recorded offset => exact absurd h nofun
  | recorded offset =>
    cases o' with
    | written segments => exact absurd h nofun
    | recorded offset' =>
      have hoffset := Origin.recorded.inj h
      cases i <;> cases j <;> simp at hoffset ⊢ <;> omega

/-- A report on the figures of one drawing and the points of another one. -/
def drawingReport : List Entry :=
  [⟨"figure", some (.aggregate (figure.relabelled (sideMark false))), default, none⟩,
   ⟨"point", some (.aggregate (point.relabelled (sideMark true))), default, none⟩]

/-- In a report on the figures of one drawing and the points of another one, a figure is declared
once, and the points of its own drawing are declared before it. -/
theorem declared_before_use_drawing :
    ∃ before after, (declared drawingReport).map (·.aggregate) =
        before ++ figure.relabelled (sideMark false) :: after ∧
      (∀ b ∈ before ++ after, b.origin ≠ (figure.relabelled (sideMark false)).origin) ∧
      point.relabelled (sideMark false) ∈ before := by
  have hdocuments : Document.ToldApart sideMark fun _ => drawingDocument :=
    ⟨fun _ => ⟨_, _, ofJson_drawing⟩, sideMark_apart⟩
  have hentries : ∀ e ∈ drawingReport, ∀ node, e.node = some node →
      Document.Holds sideMark (fun _ => drawingDocument) node := by
    intro e he node hnode
    simp only [drawingReport, List.mem_cons, List.not_mem_nil, or_false] at he
    rcases he with rfl | rfl
    · obtain rfl := Option.some.inj hnode
      exact ⟨false, .aggregate figure, rfl, _, List.mem_cons_self, .self⟩
    · obtain rfl := Option.some.inj hnode
      exact ⟨true, .aggregate point, rfl, _, List.mem_cons_of_mem _ List.mem_cons_self, .self⟩
  obtain ⟨before, after, hsplit, honce, hinner⟩ :=
    declared_before_use hdocuments hentries List.mem_cons_self rfl .self rfl
  refine ⟨before, after, hsplit, honce, hinner _ ?_ rfl ?_⟩
  · exact .member (List.mem_cons_of_mem _ List.mem_cons_self) .self
  · intro heq
    exact absurd (congrArg Aggregate.origin heq) (by decide)

end Report

end RecordLayout
