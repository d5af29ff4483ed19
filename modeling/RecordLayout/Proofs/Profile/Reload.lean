import Mathlib.Data.String.Basic
import RecordLayout.Profile.Reader
import RecordLayout.Proofs.Outcome
import RecordLayout.Proofs.Profile.Table
import RecordLayout.Proofs.Text.Numeral
import RecordLayout.Proofs.TypeName.Normal

/-!
# Reading a profile that was written out

A profile is written out in full and without the name of the profile that it was made from, so when
it is read its tables are written over those of `lp64`.  This gives the same tables again because
every profile, whatever it was made from, knows all names and all size classes that `lp64` knows,
under spellings that are normal already.

## Main definitions

* `Profile.IsRegular` has the facts about a profile that make it readable again.

## Main results

* `Profile.isRegular_of_mem_builtIn`, `Profile.isRegular_of_ofJson`: every profile is regular;
* `Profile.ofJson_toJson`: a profile that is written out is read back.
-/

namespace RecordLayout.Profile

open SortedTable

/-- A written size can be read: its name is a normal spelling and it is positive. -/
def IsSize (entry : String × Int) : Prop := TypeName.normalize entry.1 = entry.1 ∧ 0 < entry.2

instance (entry : String × Int) : Decidable (IsSize entry) := inferInstanceAs (Decidable (_ ∧ _))

/-- A size table in order that knows all names that the default knows. -/
structure IsSizeTable (sizes : SortedTable String Int) : Prop where
  ascending : sizes.Ascending
  names : sizes.Extends lp64.primitiveSizes
  isSize : ∀ e ∈ sizes, IsSize e

/-- An alignment table in order that knows all size classes that the default knows. -/
structure IsAlignmentTable (table : SortedTable Int Int) : Prop where
  ascending : table.Ascending
  sizeClasses : table.Extends lp64.alignmentTable

/-- The facts about a profile that make it readable again. -/
structure IsRegular (p : Profile) : Prop where
  width : p.pointerWidth ∈ pointerWidths
  sizes : IsSizeTable p.primitiveSizes
  alignments : IsAlignmentTable p.alignmentTable
  isPowerOfTwo : badAlignment? p.alignmentTable = none

/-! ## Built-in profiles -/

section BuiltIn

variable {names : List String} {size : Int} {table other : SortedTable String Int}

theorem putAll_ascending (h : table.Ascending) : (putAll names size table).Ascending :=
  h.foldl_put

theorem isSize_putAll (hnames : ∀ name ∈ names, TypeName.normalize name = name) (hsize : 0 < size)
    (h : ∀ e ∈ table, IsSize e) : ∀ e ∈ putAll names size table, IsSize e :=
  List.foldlRecOn (motive := fun t => ∀ e ∈ t, IsSize e) names _ h fun _ ht name hname =>
    forall_mem_put ⟨hnames name hname, hsize⟩ ht

theorem putAll_extends (names : List String) (size size' : Int) (h : table.Extends other) :
    (putAll names size table).Extends (putAll names size' other) := by
  induction names generalizing table other with
  | nil => exact h
  | cons name names ih => exact ih h.put_put

theorem normalize_pointerSizedNames :
    ∀ name ∈ pointerSizedNames, TypeName.normalize name = name := by decide +kernel

theorem normalize_longNames : ∀ name ∈ longNames, TypeName.normalize name = name := by
  decide +kernel

theorem isSize_sharedSizes : ∀ e ∈ sharedSizes, IsSize e := by decide +kernel

variable {long pointer longDouble wchar : Int}

theorem namedSizes_ascending (long pointer longDouble wchar : Int) :
    (namedSizes long pointer longDouble wchar).Ascending :=
  (putAll_ascending (putAll_ascending (Ascending.foldl_put List.Pairwise.nil))).put.put

theorem isSize_namedSizes (hlong : 0 < long) (hpointer : 0 < pointer) (hdouble : 0 < longDouble)
    (hwchar : 0 < wchar) : ∀ e ∈ namedSizes long pointer longDouble wchar, IsSize e := by
  have hshared : ∀ e ∈ sharedSizes.foldl (fun t e => put e.1 e.2 t) [], IsSize e :=
    List.foldlRecOn (motive := fun t => ∀ e ∈ t, IsSize e) sharedSizes _ (List.forall_mem_nil _)
      fun _ ht e he => forall_mem_put (isSize_sharedSizes e he) ht
  have hname : TypeName.normalize "wchar_t" = "wchar_t" := by decide +kernel
  have hname' : TypeName.normalize "long double" = "long double" := by decide +kernel
  refine forall_mem_put ⟨hname, hwchar⟩ (forall_mem_put ⟨hname', hdouble⟩ ?_)
  exact isSize_putAll normalize_pointerSizedNames hpointer
    (isSize_putAll normalize_longNames hlong hshared)

/-- The data models differ in their sizes and not in their names. -/
theorem namedSizes_extends (long pointer longDouble wchar long' pointer' longDouble' wchar' : Int) :
    (namedSizes long pointer longDouble wchar).Extends
      (namedSizes long' pointer' longDouble' wchar') := by
  unfold namedSizes
  exact (putAll_extends _ _ _ (putAll_extends _ _ _ extends_self)).put_put.put_put

theorem primitiveSizes_lp64 : lp64.primitiveSizes = namedSizes 8 8 16 4 := by rw [lp64]

theorem primitiveSizes_sysvX8664 : sysvX8664.primitiveSizes = lp64.primitiveSizes := by
  rw [sysvX8664]

theorem primitiveSizes_ilp32 : ilp32.primitiveSizes = namedSizes 4 4 12 4 := by rw [ilp32]

theorem primitiveSizes_llp64 : llp64.primitiveSizes = namedSizes 4 8 8 2 := by rw [llp64]

theorem isSizeTable_namedSizes (hlong : 0 < long) (hpointer : 0 < pointer)
    (hdouble : 0 < longDouble) (hwchar : 0 < wchar) :
    IsSizeTable (namedSizes long pointer longDouble wchar) where
  ascending := namedSizes_ascending long pointer longDouble wchar
  names := by
    rw [primitiveSizes_lp64]
    exact namedSizes_extends long pointer longDouble wchar 8 8 16 4
  isSize := isSize_namedSizes hlong hpointer hdouble hwchar

theorem isRegular_lp64 : lp64.IsRegular where
  width := by decide
  sizes := by
    rw [primitiveSizes_lp64]
    exact isSizeTable_namedSizes (by decide) (by decide) (by decide) (by decide)
  alignments := ⟨by decide, extends_self⟩
  isPowerOfTwo := by decide

theorem isRegular_sysvX8664 : sysvX8664.IsRegular where
  width := isRegular_lp64.width
  sizes := by
    rw [primitiveSizes_sysvX8664]
    exact isRegular_lp64.sizes
  alignments := isRegular_lp64.alignments
  isPowerOfTwo := isRegular_lp64.isPowerOfTwo

theorem isRegular_ilp32 : ilp32.IsRegular where
  width := by decide
  sizes := by
    rw [primitiveSizes_ilp32]
    exact isSizeTable_namedSizes (by decide) (by decide) (by decide) (by decide)
  alignments := ⟨by decide, by decide⟩
  isPowerOfTwo := by decide

theorem isRegular_llp64 : llp64.IsRegular where
  width := isRegular_lp64.width
  sizes := by
    rw [primitiveSizes_llp64]
    exact isSizeTable_namedSizes (by decide) (by decide) (by decide) (by decide)
  alignments := isRegular_lp64.alignments
  isPowerOfTwo := isRegular_lp64.isPowerOfTwo

/-- The built-in profiles are regular. -/
theorem isRegular_of_mem_builtIn {p : Profile} (h : p ∈ builtIn) : p.IsRegular := by
  simp only [builtIn, List.mem_cons, List.not_mem_nil, or_false] at h
  obtain rfl | rfl | rfl | rfl := h
  · exact isRegular_lp64
  · exact isRegular_sysvX8664
  · exact isRegular_ilp32
  · exact isRegular_llp64

theorem isRegular_of_named {name : String} {p : Profile} (h : named name = .ok p) :
    p.IsRegular := by
  unfold named at h
  split at h
  · rename_i hfound
    obtain rfl := Except.ok.inj h
    exact isRegular_of_mem_builtIn (List.mem_of_find?_eq_some hfound)
  · cases h

end BuiltIn

/-! ## Profiles that were read -/

section Read

variable {defaultName : String} {fields : Json.Fields} {base p : Profile}

theorem isRegular_of_baseOf (h : baseOf fields = .ok base) : base.IsRegular := by
  unfold baseOf at h
  split at h
  · exact Except.ok.inj h ▸ isRegular_lp64
  · split at h
    · cases h
    · exact isRegular_of_named h

/-- What reading one entry preserves, reading all entries preserves. -/
theorem putEntries_induction {α : Type} {P : α → Prop} {key : String} {otherwise : ProfileError}
    {put : α → String × Json → Except Failure α} {table table' : α}
    (h : putEntries fields key otherwise put table = .ok table') (start : P table)
    (step : ∀ e t t', put t e = .ok t' → P t → P t') : P table' := by
  unfold putEntries at h
  split at h
  · exact Except.ok.inj h ▸ start
  · exact Except.foldlM_induction h start fun e _ => step e
  · cases h

theorem putSize_eq_ok {table table' : SortedTable String Int} {entry : String × Json}
    (h : putSize table entry = .ok table') :
    ∃ n : Int, 0 < n ∧ table' = put (TypeName.normalize entry.1) n table := by
  unfold putSize at h
  split at h
  · split at h
    · cases h
    · rename_i hpositive
      exact ⟨_, Int.not_le.mp hpositive, (Except.ok.inj h).symm⟩
  · cases h

theorem putAlignment_eq_ok {table table' : SortedTable Int Int} {entry : String × Json}
    (h : putAlignment table entry = .ok table') :
    ∃ size alignment, table' = put size alignment table := by
  unfold putAlignment at h
  split at h
  · cases h
  · split at h
    · exact ⟨_, _, (Except.ok.inj h).symm⟩
    · cases h

theorem IsSizeTable.put {table : SortedTable String Int} {name : String} {size : Int}
    (h : IsSizeTable table) (hname : TypeName.normalize name = name) (hsize : 0 < size) :
    IsSizeTable (put name size table) where
  ascending := h.ascending.put
  names := h.names.put
  isSize := forall_mem_put ⟨hname, hsize⟩ h.isSize

theorem IsAlignmentTable.put {table : SortedTable Int Int} {size alignment : Int}
    (h : IsAlignmentTable table) : IsAlignmentTable (put size alignment table) where
  ascending := h.ascending.put
  sizeClasses := h.sizeClasses.put

/-- The tables of a draft come from those of its base by writing entries.  The pointer width is one
of the sizes that are written, so it must be possible. -/
theorem tables_of_draftOf {d : Draft} (h : draftOf defaultName fields = .ok d)
    (hd : d.profile.pointerWidth ∈ pointerWidths) :
    IsSizeTable d.profile.primitiveSizes ∧ IsAlignmentTable d.profile.alignmentTable := by
  unfold draftOf at h
  simp only [Except.bind_eq_ok, Except.pure_eq_ok] at h
  obtain ⟨base, hbase, width, hwidth, reuse, -, fill, -, packing, -, overrides, -, conflict, -,
    sizes, hsizes, table, htable, rfl⟩ := h
  have hregular := isRegular_of_baseOf hbase
  constructor
  · refine putEntries_induction hsizes ?_ fun e t t' he ht => ?_
    · cases width with
      | none => exact hregular.sizes
      | some w =>
        have hpositive : ∀ w ∈ pointerWidths, 0 < w := by decide
        refine List.foldlRecOn (motive := IsSizeTable) pointerSizedNames _ hregular.sizes ?_
        exact fun t ht name hname =>
          ht.put (normalize_pointerSizedNames name hname) (hpositive w hd)
    · obtain ⟨n, hn, rfl⟩ := putSize_eq_ok he
      exact ht.put (TypeName.normalize_normalize e.1) hn
  · refine putEntries_induction htable hregular.alignments fun e t t' he ht => ?_
    obtain ⟨size, alignment, rfl⟩ := putAlignment_eq_ok he
    exact ht.put

theorem check_eq_ok {d : Draft} (h : d.check = .ok p) :
    p.pointerWidth ∈ pointerWidths ∧ badAlignment? p.alignmentTable = none ∧
      ∃ fill packing, p = { d.profile with fill, packing } := by
  simp only [Draft.check] at h
  split at h
  · cases h
  · rename_i hwidth
    split at h
    · cases h
    split at h
    · cases h
    split at h
    · cases h
    · rename_i hbad
      obtain rfl := Except.ok.inj h
      exact ⟨by simpa using hwidth, hbad, _, _, rfl⟩

/-- **Every profile that was read is regular.** -/
theorem isRegular_of_ofJson {v : Json} (h : ofJson defaultName v = .ok p) : p.IsRegular := by
  unfold ofJson at h
  split at h
  · split at h
    · obtain ⟨d, hdraft, hcheck⟩ := Except.bind_eq_ok.mp h
      obtain ⟨hwidth, hbad, fill, packing, rfl⟩ := check_eq_ok hcheck
      obtain ⟨hsizes, halignments⟩ := tables_of_draftOf hdraft hwidth
      exact ⟨hwidth, hsizes, halignments, hbad⟩
    · cases h
  · cases h

end Read

/-! ## Reading back -/

variable {p : Profile}

theorem option_eq_ok {α : Type} {fields : Json.Fields} {key kind : String} {view : Json → Option α}
    {v : Json} {a : α} (hget : fields.get? key = some v) (hview : view v = some a) :
    option fields key kind view = .ok (some a) := by
  simp only [option, hget, hview]

theorem putEntries_eq {α : Type} {fields entries : Json.Fields} {key : String}
    {otherwise : ProfileError} {put : α → String × Json → Except Failure α} {table : α}
    (hget : fields.get? key = some (.object entries)) :
    putEntries fields key otherwise put table = entries.foldlM put table := by
  simp only [putEntries, hget]

theorem putSize_of_isSize {entry : String × Int} (h : IsSize entry)
    (table : SortedTable String Int) :
    putSize table (entry.1, .int entry.2) = .ok (put entry.1 entry.2 table) := by
  obtain ⟨hname, hsize⟩ := h
  simp only [putSize, hname, if_neg (Int.not_le.mpr hsize)]

theorem putAlignment_toString (entry : Int × Int) (table : SortedTable Int Int) :
    putAlignment table (toString entry.1, .int entry.2) = .ok (put entry.1 entry.2 table) := by
  simp only [putAlignment, Text.integer?_toString]

/-- All sizes of a size table, written over those that another table knows. -/
theorem foldlM_putSize {sizes other : SortedTable String Int} (h : IsSizeTable sizes)
    (ho : other.Ascending) (hkeys : sizes.Extends other) :
    (sizes.map fun e => (e.1, Json.int e.2)).foldlM putSize other = .ok sizes := by
  rw [List.foldlM_map, Except.foldlM_eq_foldl fun e he => putSize_of_isSize (h.isSize e he),
    h.ascending.foldl_put_eq ho hkeys]

theorem foldlM_putAlignment {table other : SortedTable Int Int} (h : IsAlignmentTable table)
    (ho : other.Ascending) (hkeys : table.Extends other) :
    (table.map fun e => (toString e.1, Json.int e.2)).foldlM putAlignment other = .ok table := by
  rw [List.foldlM_map, Except.foldlM_eq_foldl fun e _ => putAlignment_toString e,
    h.ascending.foldl_put_eq ho hkeys]

/-- The last check finds the fill direction and the packing by their names. -/
theorem IsRegular.check (h : p.IsRegular) (fill : FillDirection) (packing : Packing) :
    Draft.check ⟨{ p with fill, packing }, p.fill.label, p.packing.label⟩ = .ok p := by
  simp [Draft.check, h.width, h.isPowerOfTwo]

theorem isSome_get?_pointerSizedNames :
    ∀ name ∈ pointerSizedNames, (get? name lp64.primitiveSizes).isSome := by decide +kernel

/-- The options of a profile that is written out are the choices of that profile; its fill direction
and its packing are still names. -/
theorem IsRegular.draftOf_toJson (h : p.IsRegular) {fields : Json.Fields}
    (hfields : p.toJson = .object fields) (defaultName : String) :
    draftOf defaultName fields =
      .ok ⟨{ p with fill := lp64.fill, packing := lp64.packing }, p.fill.label,
        p.packing.label⟩ := by
  obtain rfl := Json.object.inj hfields
  have hkeys : p.primitiveSizes.Extends (putAll pointerSizedNames p.pointerWidth lp64.primitiveSizes) :=
    List.foldlRecOn (motive := p.primitiveSizes.Extends) pointerSizedNames _ h.sizes.names
      fun _ ht name hname =>
        forall_mem_put (h.sizes.names.isSome_get? (isSome_get?_pointerSizedNames name hname)) ht
  have hsizes := foldlM_putSize h.sizes (putAll_ascending isRegular_lp64.sizes.ascending) hkeys
  have htable := foldlM_putAlignment h.alignments isRegular_lp64.alignments.ascending
    h.alignments.sizeClasses
  simp only [draftOf, Except.bind_eq_ok, Except.pure_eq_ok]
  refine ⟨lp64, ?_, _, option_eq_ok (v := .int p.pointerWidth) ?_ rfl,
    _, option_eq_ok (v := .bool p.unitReuse) ?_ rfl, _, option_eq_ok (v := .text p.fill.label) ?_ rfl,
    _, option_eq_ok (v := .text p.packing.label) ?_ rfl,
    _, option_eq_ok (v := .bool p.alignedOverridesPack) ?_ rfl,
    _, option_eq_ok (v := .bool p.alignedWithPackedIsError) ?_ rfl,
    p.primitiveSizes, (putEntries_eq ?_).trans hsizes,
    p.alignmentTable, (putEntries_eq ?_).trans htable, ?_⟩
  all_goals simp [baseOf, Json.Fields.get?, Json.plain]

/-- **A profile that is written out is read back.** -/
theorem ofJson_toJson (h : (∃ defaultName v, ofJson defaultName v = .ok p) ∨ p ∈ builtIn)
    (name : String) : ofJson name p.toJson = .ok p := by
  have hregular : p.IsRegular := by
    obtain ⟨defaultName, v, hread⟩ | hbuiltIn := h
    · exact isRegular_of_ofJson hread
    · exact isRegular_of_mem_builtIn hbuiltIn
  obtain ⟨fields, hfields⟩ : ∃ fields, p.toJson = .object fields := ⟨_, rfl⟩
  have hunknown : Json.Fields.unknown optionNames fields = [] := by
    obtain rfl := Json.object.inj hfields
    simp [Json.Fields.unknown, Json.Fields.keys, optionNames]
  rw [hfields, ofJson, hunknown]
  change draftOf name fields >>= Draft.check = .ok p
  rw [hregular.draftOf_toJson hfields name]
  exact hregular.check lp64.fill lp64.packing

/-- A profile made from a base other than the default, with a new type and a new size class. -/
theorem ofJson_toJson_modified : ∃ p,
    ofJson "board" (.object
      [("base", .text "llp64"), ("pointer_width_bytes", .int 4),
        ("primitive_sizes", .object [("const  triple", .int 3), ("size_t", .int 2)]),
        ("primitive_alignment_table", .object [(" 3 ", .int 1), ("8", .int 2)])]) = .ok p ∧
      ofJson "custom" p.toJson = .ok p := by
  obtain ⟨p, hp⟩ := Option.isSome_iff_exists.mp (by
    decide +kernel : (ofJson "board" (.object
      [("base", .text "llp64"), ("pointer_width_bytes", .int 4),
        ("primitive_sizes", .object [("const  triple", .int 3), ("size_t", .int 2)]),
        ("primitive_alignment_table", .object [(" 3 ", .int 1), ("8", .int 2)])])).toOption.isSome)
  have hread := Except.toOption_eq_some.mp hp
  exact ⟨p, hread, ofJson_toJson (.inl ⟨"board", _, hread⟩) "custom"⟩

end RecordLayout.Profile
