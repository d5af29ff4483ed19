import RecordLayout.Proofs.Document.Resolution
import RecordLayout.Proofs.KeyedList

/-!
# The order of declarations

A document may declare its types in any order.  Resolving an entry anew looks the other entries up
by name, and looking up by name does not see the order of entries whose names are distinct; so two
orders of one document give every name the same type, or both fail.

## Main results

* `resolveAnew_perm`: an entry is resolved in the same way, failures included, in any order of the
  entries;
* `Document.ofJson_perm`: two documents that declare the same types in different orders succeed
  together and give every name the same type.
-/

namespace RecordLayout

section Entries

variable {source : String} {entries entries' : List Entry}

theorem referenceOf?_perm (hp : entries.Perm entries') (h : (entries.map Entry.name).Nodup)
    (text : String) : referenceOf? entries text = referenceOf? entries' text := by
  have hfind := find?_eq_of_perm hp h
  have hany : (entries.any fun e => e.name == text) = entries'.any fun e => e.name == text :=
    hp.any_eq
  simp only [referenceOf?, tagReference, hfind, hany]

/-- **An entry is resolved in the same way in any order of the entries**, failures included. -/
theorem resolveAnew_perm (hp : entries.Perm entries') (h : (entries.map Entry.name).Nodup)
    (active : List String) (name : String) :
    resolveAnew source entries active name = resolveAnew source entries' active name := by
  -- Induction on the number of entries that are pending.
  induction hk : (pending entries active).length using Nat.strongRecOn generalizing active name with
  | ind k ih =>
    subst hk
    by_cases hn : name ∈ active
    · rw [resolveAnew_of_mem hn, resolveAnew_of_mem hn]
    have hfind := find?_eq_of_perm hp h name
    cases he : entries.find? fun e => e.name == name with
    | none =>
      rw [resolveAnew_of_find?_eq_none hn he, resolveAnew_of_find?_eq_none hn (hfind ▸ he)]
    | some e =>
      rw [resolveAnew_of_find?_eq_some hn he, resolveAnew_of_find?_eq_some hn (hfind ▸ he)]
      congr 1
      funext place spelling
      have henter : resolveAnew source entries (name :: active)
          = resolveAnew source entries' (name :: active) :=
        funext fun n => ih _ (length_pending_cons_lt hn he) (name :: active) n rfl
      rw [henter, lookUp, lookUp, referenceOf?_perm hp h]

/-- The entries of a document succeed in one order when they do in another, and their types are the
same. -/
theorem resolveAll_perm (hp : entries.Perm entries') (h : (entries.map Entry.name).Nodup)
    {types : List (String × TypeNode)} (htypes : Document.resolveAll source entries = .ok types) :
    ∃ types', Document.resolveAll source entries' = .ok types' ∧ types.Perm types' := by
  rw [resolveAll_eq_mapM, Except.mapM_eq_ok] at htypes
  obtain ⟨types', htypes', hp'⟩ := List.perm_comp_forall₂ hp.symm htypes
  refine ⟨types', ?_, hp'.symm⟩
  rw [resolveAll_eq_mapM, Except.mapM_eq_ok]
  refine htypes'.imp fun e t he => ?_
  rwa [← resolveAnew_perm hp h]

/-- The types of a document are those of its entries, under their names. -/
theorem map_fst_of_resolveAll {types : List (String × TypeNode)}
    (htypes : Document.resolveAll source entries = .ok types) :
    types.map (·.1) = entries.map Entry.name := by
  rw [resolveAll_eq_mapM, Except.mapM_eq_ok] at htypes
  rw [← List.forall₂_eq_eq_eq, List.forall₂_map_left_iff, List.forall₂_map_right_iff]
  refine htypes.flip.imp fun t e he => ?_
  obtain ⟨node, -, rfl⟩ := Except.map_eq_ok.mp he
  rfl

end Entries

/-! ## Documents -/

namespace Document

variable {source : String} {fields fields' types types' : Json.Fields}

theorem name_entriesOf (source : String) (types : Json.Fields) :
    (entriesOf source types).map Entry.name = types.keys := by
  simp [entriesOf, Json.Fields.keys]

/-- How a document without unknown fields, whose types are given by an object, is read. -/
theorem ofJson_of_known (htypes : fields.get? "types" = some (.object types))
    (hunknown : fields.unknown ["profile", "types"] = []) :
    ofJson source (.object fields) = do
      let profile ← profileOf source (fields.get? "profile")
      let types ← resolveAll source (entriesOf source types)
      return { types, profile, source } := by
  unfold ofJson
  simp only [hunknown, htypes]

theorem ofJson_eq_ok {d : Document} (htypes : fields.get? "types" = some (.object types)) :
    ofJson source (.object fields) = .ok d ↔
      fields.unknown ["profile", "types"] = [] ∧
      profileOf source (fields.get? "profile") = .ok d.profile ∧
      resolveAll source (entriesOf source types) = .ok d.types ∧ d.source = source := by
  cases hu : fields.unknown ["profile", "types"] with
  | cons key keys => simp [ofJson, hu, refuse, bind, Except.bind]
  | nil =>
    rw [ofJson_of_known htypes hu, Except.bind_eq_ok]
    constructor
    · rintro ⟨profile, hpr, h⟩
      obtain ⟨ts, hts, h⟩ := Except.bind_eq_ok.mp h
      obtain rfl := Except.pure_eq_ok.mp h
      exact ⟨rfl, hpr, hts, rfl⟩
    · obtain ⟨ts, profile, source'⟩ := d
      rintro ⟨-, hpr, hts, rfl⟩
      exact ⟨profile, hpr, Except.bind_eq_ok.mpr ⟨ts, hts, rfl⟩⟩

/-- A document that names types and nothing else holds what these resolve to. -/
theorem ofJson_of_types {ts : List (String × TypeNode)}
    (h : resolveAll source (entriesOf source types) = .ok ts) :
    ofJson source (.object [("types", .object types)]) = .ok ⟨ts, none, source⟩ := by
  have hunknown : Json.Fields.unknown ["profile", "types"] [("types", .object types)] = [] := by
    simp [Json.Fields.unknown, Json.Fields.keys]
  exact (ofJson_eq_ok rfl).mpr ⟨hunknown, rfl, h, rfl⟩

/-- The names of a document are those that its types were written under. -/
theorem map_fst_of_ofJson {d : Document} (htypes : fields.get? "types" = some (.object types))
    (hd : ofJson source (.object fields) = .ok d) : d.types.map (·.1) = types.keys := by
  rw [map_fst_of_resolveAll ((ofJson_eq_ok htypes).mp hd).2.2.1, name_entriesOf]

section Reordered

variable (htypes : fields.get? "types" = some (.object types))
  (htypes' : fields'.get? "types" = some (.object types'))
  (hprofile : fields.get? "profile" = fields'.get? "profile")
  (hunknown : fields.unknown ["profile", "types"] = fields'.unknown ["profile", "types"])
  (hp : types.Perm types') (hn : types.keys.Nodup)

include htypes htypes' hprofile hunknown hp hn

/-- A document can be read after its types are reordered, and then has the same types. -/
theorem exists_ofJson_of_perm {d : Document} (hd : ofJson source (.object fields) = .ok d) :
    ∃ d', ofJson source (.object fields') = .ok d' ∧ d.types.Perm d'.types := by
  obtain ⟨hu, hpr, hts, -⟩ := (ofJson_eq_ok htypes).mp hd
  have hentries : (entriesOf source types).Perm (entriesOf source types') := hp.map _
  obtain ⟨ts, hts', hperm⟩ := resolveAll_perm hentries (by rwa [name_entriesOf]) hts
  refine ⟨⟨ts, d.profile, source⟩, ?_, hperm⟩
  exact (ofJson_eq_ok htypes').mpr ⟨hunknown ▸ hu, hprofile ▸ hpr, hts', rfl⟩

/-- **The order of declarations does not matter.**  Two documents that differ in the order of their
types only are read together or not at all.  Then each has the names that its types were written
under, and every name has the same type in both. -/
theorem ofJson_perm :
    ((∃ d, ofJson source (.object fields) = .ok d) ↔
      ∃ d', ofJson source (.object fields') = .ok d') ∧
    ∀ d d', ofJson source (.object fields) = .ok d → ofJson source (.object fields') = .ok d' →
      d.types.map (·.1) = types.keys ∧ d'.types.map (·.1) = types'.keys ∧
        d.types.Perm d'.types ∧ ∀ name, d.find? name = d'.find? name := by
  refine ⟨⟨?_, ?_⟩, ?_⟩
  · rintro ⟨d, hd⟩
    obtain ⟨d', hd', -⟩ := exists_ofJson_of_perm htypes htypes' hprofile hunknown hp hn hd
    exact ⟨d', hd'⟩
  · rintro ⟨d', hd'⟩
    have hn' : types'.keys.Nodup := (hp.map Prod.fst).nodup_iff.mp hn
    obtain ⟨d, hd, -⟩ :=
      exists_ofJson_of_perm htypes' htypes hprofile.symm hunknown.symm hp.symm hn' hd'
    exact ⟨d, hd⟩
  · intro d d' hd hd'
    obtain ⟨d'', hd'', hperm⟩ :=
      exists_ofJson_of_perm htypes htypes' hprofile hunknown hp hn hd
    obtain rfl : d' = d'' := Except.ok.inj (hd'.symm.trans hd'')
    have hnames := map_fst_of_ofJson htypes hd
    refine ⟨hnames, map_fst_of_ofJson htypes' hd', hperm, fun name => ?_⟩
    rw [find?, find?, find?_eq_of_perm hperm (hnames ▸ hn)]

end Reordered

/-- A letter that is declared before the header that it starts with, under the name of an alias. -/
def letter : Json.Fields :=
  [("letter", .object
      [("kind", .text "struct"),
       ("members", .array
         [.object [("name", .text "head"), ("type", .text "head_t")],
          .object [("name", .text "body"), ("type", .text "char"), ("flexible", .bool true)]])]),
   ("head_t", .text "struct head"),
   ("head", .object
      [("kind", .text "struct"),
       ("members", .array [.object [("name", .text "length"), ("type", .text "short")]])])]

/-- A letter is the same type when it is declared last. -/
theorem ofJson_perm_letter :
    ∃ d d', ofJson "letter.json" (.object [("types", .object letter)]) = .ok d ∧
      ofJson "letter.json" (.object [("types", .object letter.reverse)]) = .ok d' ∧
      d.types.map (·.1) = ["letter", "head_t", "head"] ∧
      d'.types.map (·.1) = ["head", "head_t", "letter"] ∧
      d.types.Perm d'.types ∧ ∀ name, d.find? name = d'.find? name := by
  have hread : (ofJson "letter.json" (.object [("types", .object letter)])).isOk = true := by
    decide +kernel
  obtain ⟨htogether, hsame⟩ := @ofJson_perm "letter.json" [("types", .object letter)]
    [("types", .object letter.reverse)] letter letter.reverse rfl rfl rfl rfl
    letter.reverse_perm.symm (by decide)
  obtain ⟨d, hd⟩ := Except.exists_of_isOk hread
  obtain ⟨d', hd'⟩ := htogether.mp ⟨d, hd⟩
  exact ⟨d, d', hd, hd', hsame d d' hd hd'⟩

end Document

end RecordLayout
