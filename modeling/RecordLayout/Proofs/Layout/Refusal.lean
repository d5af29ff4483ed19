import RecordLayout.Proofs.Layout.AlignedDepth
import RecordLayout.Proofs.Layout.Fault

/-!
# Constants that no layout accepts

Constants come from outside and are checked by the layout: a dimension has to be positive, the width
of a bitfield must not be negative, and a pack has to be a power of two, all of them whole numbers.
A type with any other constant in it does not lay out, however deep the constant is in the type.

An engine that is asked for such a type fails, too, as long as the types that it looks up are
unambiguous.  Otherwise it answers with the layout of an equal key and checks nothing
(`Engine.layout_refuses_bypassed`).

## Main definitions

* `TypeNode.Refused` says that a type itself has a constant that no layout accepts, and
  `TypeNode.HasRefused` that there is one anywhere in it.

## Main results

* `accepted_invariant`, `not_hasRefused_of_layoutOf`: a type that lays out has no such constant;
* `Engine.layout_refuses`: a type with one is refused by an engine.
-/

namespace RecordLayout

/-! ## Refused constants -/

namespace TypeNode

/-- A constant of the type itself is not acceptable.  A flag is no number here. -/
inductive Refused : TypeNode → Prop
  /-- A dimension that is no positive whole number. -/
  | dimension {e : TypeNode} {dims : List Json} {d : Json} (mem : d ∈ dims)
      (bad : ∀ n : Int, d = .int n → n ≤ 0) : Refused (.array e dims)
  /-- A width that is no natural number. -/
  | width {base : Primitive} {w : Json} (bad : ∀ n : Int, w = .int n → n < 0) :
      Refused (.bitfield base w)
  /-- A pack that is no power of two. -/
  | pack {a : Aggregate} {v : Json} (pack_eq : a.pack = some v)
      (bad : ∀ n : Int, v = .int n → ¬ ∃ k : Nat, n = 2 ^ k) : Refused (.aggregate a)

/-- A constant that is not acceptable is in the type or in one of its parts. -/
def HasRefused (node : TypeNode) : Prop := ∃ t : TypeNode, t.IsPartOf node ∧ t.Refused

/-- All constants in the type are acceptable. -/
def IsAccepted (node : TypeNode) : Prop := ¬ node.HasRefused

/-! ## Accepted types -/

theorem isAccepted_primitive (q : Primitive) : (TypeNode.primitive q).IsAccepted := by
  rintro ⟨t, hpart, hrefused⟩
  cases hpart with
  | self => cases hrefused

theorem isAccepted_array {e : TypeNode} (he : e.IsAccepted) {sizes : List Int}
    (hsizes : ∀ n ∈ sizes, 0 < n) : (TypeNode.array e (sizes.map Json.int)).IsAccepted := by
  rintro ⟨t, hpart, hrefused⟩
  cases hpart with
  | array inside => exact he ⟨t, inside, hrefused⟩
  | self =>
    cases hrefused with
    | dimension mem bad =>
      obtain ⟨n, hn, rfl⟩ := List.mem_map.mp mem
      have hpos := hsizes n hn
      have hneg := bad n rfl
      omega

theorem isAccepted_flexibleArray {e : TypeNode} (he : e.IsAccepted) :
    (TypeNode.flexibleArray e).IsAccepted := by
  rintro ⟨t, hpart, hrefused⟩
  cases hpart with
  | flexibleArray inside => exact he ⟨t, inside, hrefused⟩
  | self => cases hrefused

theorem isAccepted_bitfield (base : Primitive) {width : Int} (hwidth : 0 ≤ width) :
    (TypeNode.bitfield base (.int width)).IsAccepted := by
  rintro ⟨t, hpart, hrefused⟩
  cases hpart with
  | self =>
    cases hrefused with
    | width bad =>
      have hneg := bad width rfl
      omega

theorem isAccepted_aggregate {a : Aggregate} (hmembers : ∀ x ∈ a.members, x.type.IsAccepted)
    (hpack : ∀ v, a.pack = some v → ∃ n : Int, v = .int n ∧ ∃ k : Nat, n = 2 ^ k) :
    (TypeNode.aggregate a).IsAccepted := by
  rintro ⟨t, hpart, hrefused⟩
  cases hpart with
  | @member a x mem inside => exact hmembers x mem ⟨t, inside, hrefused⟩
  | self =>
    cases hrefused with
    | pack pack_eq bad =>
      obtain ⟨n, hn, hpower⟩ := hpack _ pack_eq
      exact bad n hn hpower

end TypeNode

section

variable {p : Profile} {node : TypeNode}

/-- A bitfield that can be placed has a natural number for its width. -/
theorem isAccepted_of_place {x : Member} {cap : Option Int} {base : Primitive} {width : Json}
    {field : Bitfield.Field} {cursor : Int} {unit : Option Bitfield.OpenUnit}
    {placed : Bitfield.Placed} (hfield : bitfieldOf p x cap base width = .ok field)
    (hplaced : Bitfield.place p field cursor unit = .ok placed) :
    (TypeNode.bitfield base width).IsAccepted := by
  obtain ⟨natural, -, -, rfl⟩ := bitfieldOf_eq_ok hfield
  obtain ⟨w, hw, -⟩ := Bitfield.place_eq_ok hplaced
  obtain ⟨rfl, hnonneg, -⟩ := Bitfield.checkedWidth_eq_ok hw
  exact TypeNode.isAccepted_bitfield base hnonneg

/-- **A type that lays out has only acceptable constants.** -/
theorem accepted_invariant (p : Profile) :
    LayoutInvariant p (fun node _ => node.IsAccepted) fun a _ =>
      (TypeNode.aggregate a).IsAccepted where
  primitive {q x} _ := TypeNode.isAccepted_primitive q
  array hx hcount := by
    obtain ⟨-, sizes, hsizes, -⟩ := arrayCount_eq_ok hcount
    obtain ⟨rfl, hpos⟩ := dimensionSizes_eq_ok hsizes
    exact TypeNode.isAccepted_array hx hpos
  flexible hx _ := TypeNode.isAccepted_flexibleArray hx
  aggregate h := h
  compute hcap hcomes _ := by
    have hmembers := hcomes.type_mem (D := TypeNode.IsAccepted)
      (fun hfield hplaced => isAccepted_of_place hfield hplaced) And.left
    obtain ⟨written, hpack, hwritten, -⟩ := Aggregate.packCap_eq_ok hcap
    refine TypeNode.isAccepted_aggregate hmembers fun v hv => ?_
    rw [hpack] at hv
    obtain ⟨n, rfl, rfl⟩ := Option.map_eq_some_iff.mp hv
    exact ⟨n, rfl, Number.isPowerOfTwo_iff.mp (hwritten n rfl)⟩

theorem not_hasRefused_of_layoutOf {r : LayoutResult} (h : layoutOf p node = .ok r) :
    ¬ node.HasRefused := by
  have hcompute := Failure.within_eq_ok.mp h
  cases node with
  | aggregate a => exact (accepted_invariant p).of_layoutOf h
  | primitive | array =>
    obtain ⟨x, hx, -⟩ := Except.bind_eq_ok.mp hcompute
    exact (accepted_invariant p).of_extent nofun hx
  | flexibleArray | bitfield | incomplete | unknown => cases hcompute

/-- The plain layout refuses what it does not accept. -/
theorem layoutOf_refuses (hp : p.IsAligned) (h : node.HasRefused) :
    ∃ e, layoutOf p node = .error (.layout e) := by
  cases hr : layoutOf p node with
  | ok r => exact absurd h (not_hasRefused_of_layoutOf hr)
  | error f =>
    cases leads_of_layoutOf p node f hr with
    | layout path => exact ⟨_, rfl⟩
    | emptyWindow unchecked => exact absurd hp unchecked

/-- **A type with a constant that is not acceptable is refused** by an engine, after any calls and
wherever in the type the constant is. -/
theorem Engine.layout_refuses {channels : Channels} {limit : Option Int} {calls : List Call}
    (hlimit : ∀ n ∈ limit, 0 ≤ n) (hp : p.IsAligned)
    (hasked : limit = some 0 ∨ Unambiguous (LookedUp (asked calls node)))
    (hkey : node.isKey = true) (h : node.HasRefused) :
    ∃ e, ((layout p node).run ((make channels limit).replay calls)).1 = .error (.layout e) := by
  obtain ⟨e, he⟩ := layoutOf_refuses hp h
  exact ⟨e, layout_eq_error hlimit hasked hkey he⟩

end

/-- The flag in a sample is not acceptable. -/
theorem hasRefused_sample : (TypeNode.aggregate (sample (.bool true))).HasRefused := by
  refine ⟨_, .member List.mem_cons_self .self, ?_⟩
  exact .dimension List.mem_cons_self nofun

/-- No aggregate is in a sample but the sample itself. -/
theorem eq_sample_of_isPartOf {a : Aggregate} {d : Json}
    (h : (TypeNode.aggregate a).IsPartOf (.aggregate (sample d))) : a = sample d := by
  cases h with
  | self => rfl
  | member mem inside =>
    obtain rfl := List.mem_singleton.mp mem
    cases inside with
    | array inside => cases inside

/-- The samples with two and with a flag are not the same key. -/
theorem Engine.unambiguous_samples : Unambiguous (LookedUp (asked
    [.layout .lp64 (.aggregate (sample (.int 2)))] (.aggregate (sample (.bool true))))) := by
  have hsample : ∀ t, LookedUp (asked [.layout .lp64 (.aggregate (sample (.int 2)))]
      (.aggregate (sample (.bool true)))) t →
        t = .aggregate (sample (.bool true)) ∨ t = .aggregate (sample (.int 2)) := by
    rintro t ⟨root, hroot, hlookedUp⟩
    have hroots : root = .aggregate (sample (.bool true)) ∨
        root = .aggregate (sample (.int 2)) := by
      rcases List.mem_cons.mp hroot with rfl | hroot
      · exact .inl rfl
      · exact .inr (List.mem_singleton.mp hroot)
    rcases hlookedUp with rfl | ⟨⟨a, rfl⟩, hpart⟩
    · exact hroots
    · rcases hroots with rfl | rfl
      · exact .inl (congrArg _ (eq_sample_of_isPartOf hpart))
      · exact .inr (congrArg _ (eq_sample_of_isPartOf hpart))
  intro m n p r hm hn hr hkey
  rcases hsample m hm with rfl | rfl
  · exact absurd hasRefused_sample (not_hasRefused_of_layoutOf hr)
  · rcases hsample n hn with rfl | rfl
    · exact absurd hkey (by decide)
    · rfl

/-- An engine refuses a sample with a flag after it has laid out a sample of two numbers, and one
that keeps nothing does after it has laid out a sample of one. -/
theorem Engine.layout_refuses_sample :
    (∃ e, ((layout .lp64 (.aggregate (sample (.bool true)))).run ((make [] none).replay
      [.layout .lp64 (.aggregate (sample (.int 2)))])).1 = .error (.layout e)) ∧
    ∃ e, ((layout .lp64 (.aggregate (sample (.bool true)))).run ((make [] (some 0)).replay
      [.layout .lp64 (.aggregate (sample (.int 1)))])).1 = .error (.layout e) :=
  ⟨layout_refuses (by decide) (by decide) (.inr unambiguous_samples) (by decide)
      hasRefused_sample,
    layout_refuses (by decide) (by decide) (.inl rfl) (by decide) hasRefused_sample⟩

/-- **An engine that keeps the sample of one number answers for the flag.** -/
theorem Engine.layout_refuses_bypassed :
    (TypeNode.aggregate (sample (.bool true))).HasRefused ∧
      ((layout .lp64 (.aggregate (sample (.bool true)))).run ((make [] none).replay
        [.layout .lp64 (.aggregate (sample (.int 1)))])).1.isOk = true :=
  ⟨hasRefused_sample, by decide +kernel⟩

end RecordLayout
