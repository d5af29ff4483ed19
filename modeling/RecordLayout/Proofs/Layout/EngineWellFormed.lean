import RecordLayout.Proofs.Layout.EngineInduction
import RecordLayout.Proofs.Layout.WellFormed

/-!
# An engine answers with well-formed layouts

Whatever was asked of an engine before, and however many layouts it may keep, the layout of an
aggregate that it returns is well formed, and so are all layouts nested in it.

A layout may have been kept for another type of the same key.  Two such types have members of the
same names and kinds, which is all that being well formed looks at.

## Main results

* `WellLaid.of_sameKey`: being well formed does not tell the same keys apart;
* `selfKey_invariant`: a type that has a layout is the same key as itself;
* `Engine.wellLaid_of_layout`: the layouts of an engine are well formed;
* `Engine.layout_incomplete_ne_ok`: it has none for an incomplete type.
-/

namespace RecordLayout

/-! ## Layouts of the same key -/

section SameKey

variable {p : Profile}

theorem isReported_of_sameKey {x y : Member} (h : x.sameKey y = true) :
    x.isReported = y.isReported ∧ x.name = y.name := by
  obtain ⟨type, name, attributes⟩ := x
  obtain ⟨type', name', attributes'⟩ := y
  simp only [Member.sameKey, Bool.and_eq_true, beq_iff_eq] at h
  obtain ⟨⟨htype, rfl⟩, rfl⟩ := h
  refine ⟨?_, rfl⟩
  cases type <;> cases type' <;> simp only [TypeNode.sameKey, Bool.false_eq_true] at htype
  case bitfield base width base' width' =>
    rw [Bool.and_eq_true] at htype
    simp only [Member.isReported, Json.number?_eq_of_equals htype.2]
  all_goals rfl

theorem reportedNames_of_sameKeys {xs ys : List Member} (h : sameKeys xs ys = true) :
    reportedNames xs = reportedNames ys := by
  induction xs generalizing ys with
  | nil =>
    cases ys with
    | nil => rfl
    | cons y ys => cases h
  | cons x xs ih =>
    cases ys with
    | nil => cases h
    | cons y ys =>
      simp only [sameKeys, Bool.and_eq_true] at h
      obtain ⟨hreported, hname⟩ := isReported_of_sameKey h.1
      have hrest := ih h.2
      simp only [reportedNames, List.filter_cons, hreported] at hrest ⊢
      split <;> simp [hname, hrest]

/-- **Being well formed does not tell the same keys apart.** -/
theorem WellLaid.of_sameKey {a b : Aggregate} {r : LayoutResult} (h : a.sameKey b = true)
    (hr : WellLaid p a r) : WellLaid p b r := by
  obtain ⟨kind, members, name, pack, attributes, origin⟩ := a
  obtain ⟨kind', members', name', pack', attributes', origin'⟩ := b
  simp only [Aggregate.sameKey, Bool.and_eq_true, beq_iff_eq] at h
  obtain ⟨⟨⟨⟨rfl, hmembers⟩, rfl⟩, hpack⟩, rfl⟩ := h
  have hshape := hr.shape
  refine .intro { hshape with declared := ?_ } fun m hm b n hb hn => hr.of_mem hm hb hn
  exact hshape.declared.trans (reportedNames_of_sameKeys hmembers)

end SameKey

/-! ## Keys that can be found -/

section SelfKey

variable {p : Profile} {cap : Option Int} {x : Member}

theorem Primitive.sameKey_refl (q : Primitive) : q.sameKey q = true := by
  simp [sameKey]

theorem sameConstants_refl_of_int (sizes : List Int) :
    sameConstants (sizes.map Json.int) (sizes.map Json.int) = true := by
  induction sizes with
  | nil => rfl
  | cons n sizes ih => simp [sameConstants, Json.equals, Json.number?, ih]

/-- A bitfield that can be placed has a number for its width. -/
theorem sameKey_self_of_bitfield {base : Primitive} {width : Json} {field : Bitfield.Field}
    {cursor : Int} {unit : Option Bitfield.OpenUnit} {placed : Bitfield.Placed}
    (hfield : bitfieldOf p x cap base width = .ok field)
    (hplaced : Bitfield.place p field cursor unit = .ok placed) :
    (TypeNode.bitfield base width).sameKey (.bitfield base width) = true := by
  obtain ⟨natural, -, -, rfl⟩ := bitfieldOf_eq_ok hfield
  obtain ⟨w, rfl, -⟩ := Bitfield.placement_eq_none_iff hplaced
  simp [TypeNode.sameKey, Primitive.sameKey_refl, Json.equals, Json.number?]

theorem sameKeys_self {members : List Member}
    (h : ∀ x ∈ members, x.type.sameKey x.type = true) : sameKeys members members = true := by
  induction members with
  | nil => rfl
  | cons x xs ih =>
    have hx : x.sameKey x = true := by
      have htype := h x List.mem_cons_self
      obtain ⟨type, name, attributes⟩ := x
      simpa [Member.sameKey] using htype
    rw [sameKeys, hx, ih fun y hy => h y (List.mem_cons_of_mem x hy)]
    rfl

/-- **A type that has a layout is the same key as itself**: no constant in it is other than a
number. -/
theorem selfKey_invariant (p : Profile) :
    LayoutInvariant p (fun node _ => node.sameKey node = true) fun a _ => a.sameKey a = true where
  primitive _ := Primitive.sameKey_refl _
  array hx hcount := by
    obtain ⟨-, sizes, hsizes, -⟩ := arrayCount_eq_ok hcount
    obtain ⟨rfl, -⟩ := dimensionSizes_eq_ok hsizes
    rw [TypeNode.sameKey, hx, sameConstants_refl_of_int]
    rfl
  flexible hx _ := hx
  aggregate h := h
  compute {a cap s r} hcap hcomes _ := by
    have htypes := hcomes.type_mem (D := fun t => t.sameKey t = true)
      (fun hfield hplaced => sameKey_self_of_bitfield hfield hplaced) And.left
    have hmembers := sameKeys_self htypes
    have hpack : sameConstant? a.pack a.pack = true := by
      unfold Aggregate.packCap at hcap
      cases hp : a.pack with
      | none => rfl
      | some pack =>
        rw [hp] at hcap
        cases pack with
        | int n => exact beq_self_eq_true n
        | null | bool | float | text | array | object => cases hcap
    obtain ⟨kind, members, name, pack, attributes, origin⟩ := a
    simpa [Aggregate.sameKey] using And.intro hmembers hpack

end SelfKey

/-! ## Layouts of an engine -/

theorem wellLaid_keepable :
    Engine.Keepable fun p a r => WellLaid p a r ∧ a.sameKey a = true :=
  .of_same fun h hr => hr.of_sameKey h

/-- **The layouts of an engine are well formed**, after any calls, and so are all layouts nested in
them. -/
theorem Engine.wellLaid_of_layout {channels : Channels} {limit : Option Int} {calls : List Call}
    {p : Profile} {a : Aggregate} {r : LayoutResult}
    (h : ((layout p (.aggregate a)).run ((make channels limit).replay calls)).1 = .ok r) :
    WellLaid p a r :=
  (layout_ensures wellLaid_keepable
    (fun p => (wellLaid_invariant p).and (selfKey_invariant p)) h).1

/-- **An incomplete type has no layout**, after any calls. -/
theorem Engine.layout_incomplete_ne_ok {channels : Channels} {limit : Option Int}
    {calls : List Call} {p : Profile} {label : Label} (r : LayoutResult) :
    ((layout p (.incomplete label)).run ((make channels limit).replay calls)).1 ≠ .ok r := fun h =>
  (keeps_of_layout wellLaid_keepable
    (fun p => (wellLaid_invariant p).and (selfKey_invariant p)) h).complete label rfl

/-- An engine that keeps one layout returns a well-formed one for a packet, after it was emptied and
has answered for the header. -/
theorem Engine.wellLaid_packet :
    ∃ r, ((layout .sysvX8664 (.aggregate packet)).run ((make [] (some 1)).replay
        [.layout .lp64 (.aggregate packet), .clear, .layout .sysvX8664 (.aggregate header)])).1 =
          .ok r ∧ WellLaid .sysvX8664 packet r := by
  have hok : ((layout .sysvX8664 (.aggregate packet)).run ((make [] (some 1)).replay
      [.layout .lp64 (.aggregate packet), .clear,
        .layout .sysvX8664 (.aggregate header)])).1.isOk = true := by decide +kernel
  obtain ⟨r, hr⟩ := Except.exists_of_isOk hok
  exact ⟨r, hr, wellLaid_of_layout hr⟩

end RecordLayout
