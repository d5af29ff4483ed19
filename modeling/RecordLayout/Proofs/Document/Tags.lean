import RecordLayout.Document.Basic
import RecordLayout.Proofs.Document.Cycle
import RecordLayout.Proofs.Document.Origins
import RecordLayout.Proofs.Text.Blank
import RecordLayout.Proofs.TypeName.Normal

/-!
# Tags

A tag is a name behind the keyword of a kind of aggregate.  Two walks read it.  Where a member is
resolved, the spelling is brought into its normal form first, a pointer is a type of its own, and
the entry of that name counts only if it claims to describe an aggregate of that kind; anything else
is a type that is only declared.  Where a type is asked for by its tag, the keyword is cut off and
the entry of that name is the answer, whatever it describes.

So the two agree on a tag that is spelled normally exactly when the entry claims the kind, or stands
for the declared type itself.  Asked for the struct of a name that belongs to a union, a document
answers with the union.

## Main definitions

* `Document.memberType` is what the type of a member resolves to;
* `NamesTag` says that a spelling names a tag, and in which normal form.

## Main results

* `namesTag_of_word`: a keyword in front of an identifier names a tag;
* `Document.memberType_of_lookUp`: a spelling means the same wherever it is looked up;
* `Document.get_tag`: when a type asked for by its tag is what a member with this tag resolves to.
-/

namespace RecordLayout

variable {kind : AggregateKind} {source spelling tag rest : String} {entries : List Entry}

/-! ## Spellings of tags -/

/-- A spelling names a tag when its normal form is a keyword, a blank and the tag, and the tag is
not that of a pointer. -/
structure NamesTag (kind : AggregateKind) (spelling tag : String) : Prop where
  normal : TypeName.normalize spelling = kind.keyword ++ " " ++ tag
  direct : TypeName.isPointer tag = false

theorem isPointer_keyword_append (kind : AggregateKind) (tag : String) :
    TypeName.isPointer (kind.keyword ++ " " ++ tag) = TypeName.isPointer tag := by
  by_cases htag : tag = ""
  · subst htag
    cases kind <;> decide
  · have hne : tag.toList ≠ [] := by simpa using htag
    simp only [TypeName.isPointer, String.toList_append, List.getLast?_append_of_ne_nil _ hne]

/-- The tokens behind a keyword are read on their own. -/
theorem tokens_keyword_append (kind : AggregateKind) (rest : String) :
    TypeName.tokens (kind.keyword ++ " " ++ rest) =
      .word kind.keyword.toList :: TypeName.tokens rest := by
  have hword : ∀ c ∈ kind.keyword.toList, TypeName.IsWordChar c := by
    rw [← List.forall_iff_forall_mem]
    cases kind <;> decide
  have hne : kind.keyword.toList ≠ [] := by cases kind <;> decide
  have hkeep : (TypeName.Token.word kind.keyword.toList).isQualifier = false := by
    cases kind <;> decide
  have hchars : (kind.keyword ++ " " ++ rest).toList =
      kind.keyword.toList ++ (' ' :: rest.toList) := by simp
  rw [TypeName.tokens, hchars, TypeName.tokensFrom_word_append hne hword (by decide),
    List.filter_cons_of_pos (by simp [hkeep]), TypeName.tokens]

/-- **A keyword in front of an identifier names a tag**: a word that is no qualifier. -/
theorem namesTag_of_word (hne : tag ≠ "") (hchars : ∀ c ∈ tag.toList, TypeName.IsWordChar c)
    (hqualifier : tag ∉ TypeName.qualifiers) :
    NamesTag kind (kind.keyword ++ " " ++ tag) tag := by
  have hnil : tag.toList ≠ [] := by simpa using hne
  have htokens : TypeName.tokens tag = [.word tag.toList] := by
    rw [TypeName.tokens, TypeName.tokensFrom_word hnil hchars, List.filter_cons_of_pos]
    · rfl
    · simpa [TypeName.Token.isQualifier] using hqualifier
  refine ⟨?_, ?_⟩
  · rw [TypeName.normalize, tokens_keyword_append, htokens, ← String.toList_inj]
    simp [TypeName.spell, TypeName.spellRest]
  · have hlast := hchars _ (List.getLast_mem hnil)
    simp [TypeName.isPointer, List.getLast?_eq_some_getLast hnil, hlast.2]

/-- What a tag refers to. -/
theorem NamesTag.referenceOf?_eq (h : NamesTag kind spelling tag) :
    referenceOf? entries (TypeName.normalize spelling) =
      some (tagReference entries kind (TypeName.normalize spelling) (Text.strip tag)) := by
  have hpointer : TypeName.isPointer (TypeName.normalize spelling) = false := by
    rw [h.normal, isPointer_keyword_append, h.direct]
  have hne : TypeName.normalize spelling ≠ "" := by
    rw [h.normal]
    cases kind <;> simp [AggregateKind.keyword]
  rw [referenceOf?, if_neg hne, if_neg (Bool.eq_false_iff.mp hpointer)]
  cases kind with
  | struct =>
    have hcut : Text.dropStart? "struct " (TypeName.normalize spelling) = some tag :=
      Text.dropStart?_eq_some.mpr h.normal
    rw [hcut]
  | union =>
    have hcut : Text.dropStart? "union " (TypeName.normalize spelling) = some tag :=
      Text.dropStart?_eq_some.mpr h.normal
    have hstruct : Text.dropStart? "struct " (TypeName.normalize spelling) = none := by
      simp [h.normal, AggregateKind.keyword, Text.dropStart?, Text.dropList?]
    rw [hstruct, hcut]

/-! ## Entries that claim a kind -/

/-- What claims to describe an aggregate has its keyword for its kind. -/
theorem Spec.claimedKind?_eq_some {v : Json} (h : Spec.claimedKind? v = some kind) :
    ∃ fields keyword, v = .object fields ∧
      Json.Fields.get? fields "kind" = some (.text keyword) ∧
      Spec.aggregateKind? keyword = some kind := by
  cases v with
  | object fields =>
    rw [Spec.claimedKind?] at h
    split at h
    · exact ⟨fields, _, rfl, ‹_›, h⟩
    · cases h
  | null | bool | int | float | text | array => cases h

/-- A keyword is read as it is written. -/
theorem Spec.kindOf_eq_ok {source : String} {place : Place} {fields : Json.Fields}
    {keyword read : String} (hkeyword : Json.Fields.get? fields "kind" = some (.text keyword))
    (h : Spec.kindOf source place fields = .ok read) : read = keyword := by
  simp only [Spec.kindOf, hkeyword, Option.getD_some, Json.isComposite] at h
  split at h
  · cases h
  split at h
  · exact (Except.ok.inj h).symm
  · cases h

/-- What claims to describe an aggregate of a kind is the specification of one, or at fault. -/
theorem Spec.cases_of_claimedKind? {v : Json} (h : Spec.claimedKind? v = some kind)
    (source : String) (place : Place) (defaultName : Option String) :
    (∃ f, Spec.ofJson source place defaultName v = .fault f) ∨
      ∃ a : AggregateSpec, Spec.ofJson source place defaultName v = .aggregate a ∧
        a.kind = kind := by
  obtain ⟨fields, keyword, rfl, hkeyword, hclaims⟩ := Spec.claimedKind?_eq_some h
  unfold Spec.ofJson
  dsimp only
  split
  · exact .inl ⟨_, rfl⟩
  rename_i read hread
  obtain rfl := Spec.kindOf_eq_ok hkeyword hread
  split
  · rename_i kind' hkind
    obtain rfl : kind' = kind := Option.some.inj (hkind.symm.trans hclaims)
    split
    · exact .inl ⟨_, rfl⟩
    split
    · exact .inr ⟨_, rfl, rfl⟩
    · exact .inl ⟨_, rfl⟩
  · rename_i hnone
    cases hnone.symm.trans hclaims

/-- An aggregate is of the kind that its specification says. -/
theorem AggregateSpec.kind_of_resolve {lookup : Place → String → Except Failure TypeNode}
    {a : AggregateSpec} {b : Aggregate} (h : a.resolve source lookup = .ok b) :
    b.kind = a.kind := by
  obtain ⟨kind, members, name, pack, attributes, place⟩ := a
  obtain ⟨xs, -, h⟩ := Except.bind_eq_ok.mp h
  obtain ⟨attributes, -, h⟩ := Except.bind_eq_ok.mp h
  rw [← Except.pure_eq_ok.mp h]

/-- An entry that claims a kind stands for an aggregate of that kind. -/
theorem exists_aggregate_of_claims {types : Json.Fields} {e : Entry} {node : TypeNode}
    {lookup : Place → String → Except Failure TypeNode}
    (he : e ∈ Document.entriesOf source types) (hclaims : e.claims = some kind)
    (hnode : e.spec.resolve source lookup = .ok node) :
    ∃ a : Aggregate, node = .aggregate a ∧ a.kind = kind := by
  obtain ⟨⟨name, v⟩, -, rfl⟩ := List.mem_map.mp he
  dsimp only at hnode
  rcases Spec.cases_of_claimedKind? hclaims source ["types", name] (some name) with
    ⟨f, hf⟩ | ⟨a, ha, hkind⟩
  · rw [hf] at hnode
    exact absurd hnode nofun
  · rw [ha] at hnode
    obtain ⟨b, hb, hnode⟩ := Except.bind_eq_ok.mp hnode
    exact ⟨b, (Except.pure_eq_ok.mp hnode).symm, hkind ▸ AggregateSpec.kind_of_resolve hb⟩

namespace Document

variable {fields types : Json.Fields} {d : Document} {node : TypeNode} {place : Place}

/-! ## Members -/

/-- What the type of a member resolves to, when it is spelled so, at a place in a document with
these types. -/
def memberType (source : String) (types : Json.Fields) (place : Place) (spelling : String) :
    Except Failure TypeNode :=
  ((Spec.memberOfJson source place (.object [("type", .text spelling)])).resolve source
    (lookUp source (entriesOf source types) (resolveAnew source (entriesOf source types) []))).map
    (·.type)

/-- The type of a member is looked up at its place. -/
theorem memberType_eq : memberType source types place spelling =
    lookUp source (entriesOf source types) (resolveAnew source (entriesOf source types) [])
      (place ++ ["type"]) spelling := by
  have hread : Spec.memberOfJson source place (.object [("type", .text spelling)]) =
      .member (.named (place ++ ["type"]) spelling) none (.ok .none) := by
    have hunknown : Json.Fields.unknown Spec.memberKeys [("type", .text spelling)] = [] := by
      simp [Json.Fields.unknown, Json.Fields.keys, Spec.memberKeys]
    have hhead : Spec.memberHead source place [("type", .text spelling)] = .ok none := by
      rw [Spec.memberHead, hunknown]
      rfl
    unfold Spec.memberOfJson
    simp only [hhead]
    split
    · rename_i htype
      exact absurd htype nofun
    · rename_i type htype
      obtain rfl := Option.some.inj htype
      unfold Spec.ofJson
      rfl
  rw [memberType, hread, MemberSpec.resolve]
  simp only [Spec.resolve]
  cases lookUp source (entriesOf source types) (resolveAnew source (entriesOf source types) [])
    (place ++ ["type"]) spelling <;> rfl

/-- **A spelling means the same wherever it is looked up**, whichever entries are being resolved
there. -/
theorem memberType_of_lookUp {active : List String}
    (h : lookUp source (entriesOf source types)
      (resolveAnew source (entriesOf source types) active) (place ++ ["type"]) spelling = .ok node) :
    memberType source types place spelling = .ok node := by
  rw [memberType_eq]
  exact lookUp_mono (fun _ _ => resolveAnew_mono (List.nil_subset _)) _ _ _ h

/-! ## Types asked for by tag -/

/-- The type of a name is what its entry stands for. -/
theorem exists_entry_of_find? (hd : resolveAll source entries = .ok d.types)
    (h : d.find? tag = some node) :
    ∃ e, entries.find? (fun e => e.name == tag) = some e ∧
      resolveAnew source entries [] tag = .ok node := by
  rw [resolveAll_eq_mapM, Except.mapM_eq_ok] at hd
  unfold find? at h
  generalize d.types = ts at hd h
  generalize resolveAnew source entries [] = resolved at hd ⊢
  induction hd with
  | nil => exact absurd h nofun
  | @cons e t es ts he _ ih =>
    obtain ⟨t', ht', rfl⟩ := Except.map_eq_ok.mp he
    by_cases hname : e.name = tag
    · rw [List.find?_cons_of_pos (by simpa using hname)] at h
      obtain rfl := Option.some.inj h
      exact ⟨e, List.find?_cons_of_pos (by simpa using hname), hname ▸ ht'⟩
    · rw [List.find?_cons_of_neg (by simpa using hname)] at h
      obtain ⟨e', he', hnode⟩ := ih h
      exact ⟨e', by rwa [List.find?_cons_of_neg (by simpa using hname)], hnode⟩

theorem findTag?_keyword_append (d : Document) (kind : AggregateKind) (rest : String) :
    d.findTag? (kind.keyword ++ " " ++ rest) = d.find? (Text.strip rest) := by
  cases kind with
  | struct =>
    have hcut : Text.dropStart? "struct " (AggregateKind.struct.keyword ++ " " ++ rest) =
        some rest := Text.dropStart?_eq_some.mpr rfl
    rw [findTag?, hcut]
  | union =>
    have hcut : Text.dropStart? "union " (AggregateKind.union.keyword ++ " " ++ rest) =
        some rest := Text.dropStart?_eq_some.mpr rfl
    have hstruct : Text.dropStart? "struct " (AggregateKind.union.keyword ++ " " ++ rest) =
        none := by simp [AggregateKind.keyword, Text.dropStart?, Text.dropList?]
    rw [findTag?, hstruct, hcut]
    rfl

/-- What a member with a tag resolves to, when the tag has an entry. -/
theorem memberType_tag {e : Entry} (htag : NamesTag kind spelling tag)
    (hstrip : Text.strip tag = tag)
    (he : (entriesOf source types).find? (fun e => e.name == tag) = some e) :
    memberType source types place spelling =
      if e.claims = some kind then resolveAnew source (entriesOf source types) [] tag
      else .ok (.incomplete (.name (TypeName.normalize spelling))) := by
  rw [memberType_eq, lookUp, htag.referenceOf?_eq, hstrip, tagReference, he]
  by_cases hclaims : e.claims = some kind
  · simp only [hclaims, if_true]
  · simp only [hclaims, if_false]
    rfl

/-- **A type asked for by its tag** is the one that the name behind the keyword stands for.  A
member with this tag resolves to the same type exactly when the entry of the name claims to describe
an aggregate of that kind, and then it is one, or when it stands for the declared type itself. -/
theorem get_tag (htypes : fields.get? "types" = some (.object types))
    (hd : ofJson source (.object fields) = .ok d)
    (hname : d.find? (kind.keyword ++ " " ++ rest) = none)
    (hget : d.get (kind.keyword ++ " " ++ rest) = .ok node) :
    d.find? (Text.strip rest) = some node ∧
      ∃ e, (entriesOf source types).find? (fun e => e.name == Text.strip rest) = some e ∧
        (e.claims = some kind → ∃ a : Aggregate, node = .aggregate a ∧ a.kind = kind) ∧
        (NamesTag kind (kind.keyword ++ " " ++ rest) (Text.strip rest) → ∀ place,
          ∃ node', memberType source types place (kind.keyword ++ " " ++ rest) = .ok node' ∧
            (node' = node ↔ e.claims = some kind ∨
              node = .incomplete (.name (kind.keyword ++ " " ++ Text.strip rest)))) := by
  have hfind : d.find? (Text.strip rest) = some node := by
    rw [get, hname, findTag?_keyword_append] at hget
    cases hfound : d.find? (Text.strip rest) with
    | none =>
      rw [hfound] at hget
      exact absurd hget nofun
    | some node' =>
      rw [hfound] at hget
      exact congrArg some (Except.ok.inj hget)
  obtain ⟨-, -, hall, -⟩ := (ofJson_eq_ok htypes).mp hd
  obtain ⟨e, he, hnode⟩ := exists_entry_of_find? hall hfind
  refine ⟨hfind, e, he, fun hclaims => ?_, fun htag place => ?_⟩
  · rw [resolveAnew_of_find?_eq_some List.not_mem_nil he] at hnode
    exact exists_aggregate_of_claims (List.mem_of_find?_eq_some he) hclaims hnode
  · rw [memberType_tag htag (Text.strip_strip rest) he, hnode, htag.normal]
    by_cases hclaims : e.claims = some kind
    · exact ⟨node, if_pos hclaims, by simp [hclaims]⟩
    · refine ⟨_, if_neg hclaims, ?_⟩
      simp only [hclaims, false_or]
      exact eq_comm

/-- A document with a union of numbers. -/
def numbers : Json.Fields :=
  [("number", .object [("kind", .text "union"),
    ("members", .array [.object [("name", .text "x"), ("type", .text "int")]])])]

/-- The union of numbers. -/
def number : Aggregate where
  kind := .union
  members := [⟨.primitive ⟨"int", none, none⟩, some "x", .none⟩]
  name := some "number"
  pack := none
  attributes := .none
  origin := .written ["types", "number"]

/-- The document once it is read. -/
def numbersDocument : Document where
  types := [("number", .aggregate number)]
  profile := none
  source := "numbers.json"

/-- The entry of the document. -/
def numberEntry : Entry where
  name := "number"
  spec := .aggregate
    { kind := .union
      members :=
        [.member (.named ["types", "number", "members[0]", "type"] "int") (some "x") (.ok .none)]
      name := some "number"
      pack := none
      attributes := .ok .none
      place := ["types", "number"] }
  claims := some .union

theorem entriesOf_numbers : entriesOf "numbers.json" numbers = [numberEntry] := by
  cbv

theorem resolveAnew_number :
    resolveAnew "numbers.json" [numberEntry] [] "number" = .ok (.aggregate number) := by
  have hint : referenceOf? [numberEntry] (TypeName.normalize "int") =
      some (.primitive "int") := by decide
  rw [resolveAnew_of_find?_eq_some List.not_mem_nil rfl]
  simp only [numberEntry, Spec.resolve, AggregateSpec.resolve, resolveMembers, MemberSpec.resolve,
    lookUp]
  rw [numberEntry] at hint
  simp only [hint]
  rfl

theorem ofJson_numbers :
    ofJson "numbers.json" (.object [("types", .object numbers)]) = .ok numbersDocument := by
  refine ofJson_of_types ?_
  rw [entriesOf_numbers, resolveAll_eq_mapM]
  exact Except.mapM_eq_ok.mpr (.cons (congrArg _ resolveAnew_number) .nil)

theorem namesTag_number (kind : AggregateKind) :
    NamesTag kind (kind.keyword ++ " " ++ "number") "number" :=
  namesTag_of_word (by decide) (List.forall_iff_forall_mem.mp (by decide)) (by decide)

/-- The union of numbers is found by its tag, and it is what a member with this tag resolves to. -/
theorem get_tag_number : numbersDocument.get "union number" = .ok (.aggregate number) ∧
    memberType "numbers.json" numbers [] "union number" = .ok (.aggregate number) := by
  have hname : numbersDocument.find? (AggregateKind.union.keyword ++ " " ++ "number") = none := by
    decide
  have hget : numbersDocument.get (AggregateKind.union.keyword ++ " " ++ "number") =
      .ok (.aggregate number) := rfl
  obtain ⟨-, e, he, -, hmember⟩ := get_tag rfl ofJson_numbers hname hget
  rw [entriesOf_numbers] at he
  obtain rfl := Option.some.inj he
  obtain ⟨node', hnode', hiff⟩ := hmember (namesTag_number .union) []
  obtain rfl := hiff.mpr (.inl rfl)
  exact ⟨hget, hnode'⟩

/-- **A document answers with a union when it is asked for a struct.**  The name belongs to a union,
and a member with the tag of a struct of that name resolves to a type that is only declared. -/
theorem union_of_get_struct :
    ∃ d, ofJson "numbers.json" (.object [("types", .object numbers)]) = .ok d ∧
    d.find? "struct number" = none ∧
    ∃ a : Aggregate, d.get "struct number" = .ok (.aggregate a) ∧ a.kind = .union ∧
      ∀ place, memberType "numbers.json" numbers place "struct number" ≠ .ok (.aggregate a) := by
  refine ⟨numbersDocument, ofJson_numbers, by decide, number, rfl, rfl, fun place => ?_⟩
  have hfind : (entriesOf "numbers.json" numbers).find? (fun e => e.name == "number") =
      some numberEntry := by rw [entriesOf_numbers]; rfl
  have htag : NamesTag .struct "struct number" "number" := namesTag_number .struct
  rw [memberType_tag htag (by decide) hfind, if_neg (by decide)]
  exact nofun

end Document

end RecordLayout
