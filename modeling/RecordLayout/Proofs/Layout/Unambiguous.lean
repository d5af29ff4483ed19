import RecordLayout.Proofs.Layout.Coherence
import RecordLayout.Proofs.Outcome
import RecordLayout.Proofs.TypeTree.Parts

/-!
# Engines that are asked for unambiguous types

The keys of an engine compare constants as numbers, so a flag is the same key as the number one.  A
layout takes only one of the two for the dimension of an array.  An engine that has laid out the
type with the number finds that layout when it is asked for the type with the flag, and never
checks the flag.

That is the only way in which its history can show.  Where no type that lays out is the same key as
another type that is looked up, an engine answers as the plain layout does, with its failures
(`Engine.answers_layout`).  The condition is about the types that are looked up, which are those
asked for and the aggregates in them, and it always holds of types whose constants are whole numbers
(`Engine.unambiguous_of_isIntegral`).

## Main definitions

* `Engine.asked` are the types that an engine is asked for, and `Engine.LookedUp` says which types
  it looks up for them;
* `Engine.Unambiguous` says that equal keys are equal types.

## Main results

* `Engine.trusted_unambiguous`: an engine can be trusted for such types;
* `Engine.answers_layout`: it answers as the plain layout does;
* `Engine.layoutOf_of_layout_eq_error` and `Engine.layout_eq_error`: it fails when that fails, and
  for the same reason.
-/

namespace RecordLayout.Engine

/-! ## Types that are looked up -/

/-- The type that a call asks for. -/
def Call.node? : Call → Option TypeNode
  | .clear => none
  | .layout _ node => some node

/-- The types that an engine is asked for by calls and then for a layout. -/
def asked (calls : List Call) (node : TypeNode) : List TypeNode :=
  node :: calls.filterMap Call.node?

/-- A type that an engine looks up for the types that it is asked for: one of these, or an aggregate
in one of them. -/
def LookedUp (roots : List TypeNode) (t : TypeNode) : Prop :=
  ∃ root ∈ roots, t = root ∨ (∃ a, t = .aggregate a) ∧ t.IsPartOf root

/-- In a class of types equal keys are equal types, up to origins, if one of them lays out. -/
def Unambiguous (D : TypeNode → Prop) : Prop :=
  ∀ m n p r, D m → D n → layoutOf p m = .ok r → m.sameKey n = true → m.bare = n.bare

section

variable {limit : Option Int} {calls : List Call} {roots : List TypeNode} {e : Engine}
  {node : TypeNode} {p : Profile} {D : TypeNode → Prop}

theorem lookedUp_of_mem (h : node ∈ roots) : LookedUp roots node := ⟨node, h, .inl rfl⟩

theorem mem_asked_of_call (h : Call.layout p node ∈ calls) (root : TypeNode) :
    node ∈ asked calls root :=
  List.mem_cons_of_mem root (List.mem_filterMap.mpr ⟨_, h, rfl⟩)

/-- What holds of the types asked for and passes to their parts holds of all that is looked up. -/
theorem LookedUp.of_hereditary (hD : Hereditary D) (hroots : ∀ root ∈ roots, D root)
    {t : TypeNode} (h : LookedUp roots t) : D t := by
  obtain ⟨root, hroot, rfl | ⟨-, hpart⟩⟩ := h
  · exact hroots t hroot
  · exact hD.of_isPartOf hpart (hroots root hroot)

/-- **Whole numbers make no ambiguous types.** -/
theorem unambiguous_of_isIntegral (h : ∀ root ∈ roots, root.isIntegral = true) :
    Unambiguous (LookedUp roots) := by
  intro m n p r hm hn _ hkey
  exact m.bare_eq_of_sameKey n (hm.of_hereditary hereditary_isIntegral h)
    (hn.of_hereditary hereditary_isIntegral h) hkey

theorem isIntegral_of_mem_asked (hcalls : ∀ c ∈ calls, c.isIntegral = true)
    (hnode : node.isIntegral = true) : ∀ root ∈ asked calls node, root.isIntegral = true := by
  intro root hroot
  rcases List.mem_cons.mp hroot with rfl | hroot
  · exact hnode
  · obtain ⟨c, hc, hasks⟩ := List.mem_filterMap.mp hroot
    cases c with
    | clear => cases hasks
    | layout p n =>
      cases hasks
      exact hcalls _ hc

/-! ## Answers -/

/-- What is kept is the layout of a type in the class, up to origins.  Nothing is said when nothing
is kept. -/
def Laid (limit : Option Int) (D : TypeNode → Prop) (node : TypeNode) (p : Profile)
    (r : LayoutResult) : Prop :=
  limit = some 0 ∨ D node ∧ (node.bare.measure Setting.pure p).compute = .ok r.bare

/-- **Unambiguous types can be trusted**, and all keys when nothing is kept. -/
theorem trusted_unambiguous (h : limit = some 0 ∨ Unambiguous D) :
    Trusted limit (Laid limit D) fun t => t.isKey = true ∧ D t where
  isKey hnode := hnode.1
  found {e node p x} he hnode hx hholds := by
    have hlimit : limit ≠ some 0 := by
      rintro rfl
      rw [he.entries_eq_nil] at hx
      cases hx
    obtain ⟨rfl, hkey⟩ := holds_iff.mp hholds
    obtain ⟨hkept, hcompute⟩ := (he.kept x hx).resolve_left hlimit
    have hlaid : layoutOf x.profile x.node.bare = .ok x.stored.result.bare := by
      rw [layoutOf, hcompute, Failure.within_ok]
    rw [layoutOf_bare] at hlaid
    obtain ⟨r, hr, -⟩ := Except.map_eq_ok.mp hlaid
    have hbare := h.resolve_left hlimit x.node node x.profile r hkept hnode.2 hr hkey
    rwa [hbare] at hcompute
  kept hnode hr := .inr ⟨hnode.2, hr⟩

/-- A type that is no key is refused before anything else. -/
theorem run_layout_of_not_isKey (hkey : node.isKey = false) (p : Profile) (e : Engine) :
    (layout p node).run e = (.error .compositeKey, e) := by
  rw [run_layout]
  simp only [serve, hkey, Bool.not_false, if_true]
  rfl

/-- **An engine answers as the plain layout does**, up to origins and after any calls, when the
types that it looks up are unambiguous or when it keeps nothing. -/
theorem answers_layout {channels : Channels}
    (hasked : limit = some 0 ∨ Unambiguous (LookedUp (asked calls node)))
    (hkey : node.isKey = true) :
    Answers limit (Comparison.bare p).Layouts (layoutOf p node.bare)
      ((layout p node).run ((make channels limit).replay calls)).1 := by
  have htrusted := trusted_unambiguous hasked
  -- The walk goes to all parts, but only aggregates are looked up on the way.
  have hwalk := hereditary_isKey.and (hereditary_parts fun root => root ∈ asked calls node)
  have hlookup : ∀ a : Aggregate,
      ((TypeNode.aggregate a).isKey = true ∧
        ∃ root, root ∈ asked calls node ∧ (TypeNode.aggregate a).IsPartOf root) →
      (TypeNode.aggregate a).isKey = true ∧ LookedUp (asked calls node) (.aggregate a) := by
    rintro a ⟨hkey, root, hroot, hpart⟩
    exact ⟨hkey, root, hroot, .inr ⟨⟨a, rfl⟩, hpart⟩⟩
  have hreplayed : ((make channels limit).replay calls).Invariant limit
      (Laid limit (LookedUp (asked calls node))) := by
    refine replay_induction (invariant_make channels limit) fun e c hc he => ?_
    cases c with
    | clear => exact he.clear
    | layout q n =>
      cases hn : n.isKey with
      | false => rwa [after, run_layout_of_not_isKey hn]
      | true =>
        have hmem := mem_asked_of_call hc node
        exact (htrusted.layout hwalk hlookup ⟨hn, n, hmem, .self⟩ ⟨hn, lookedUp_of_mem hmem⟩ e he).1
  have hmem : node ∈ asked calls node := List.mem_cons_self
  exact (htrusted.layout hwalk hlookup ⟨hkey, node, hmem, .self⟩ ⟨hkey, lookedUp_of_mem hmem⟩ _
    hreplayed).2

/-- Such an engine, if it may keep nothing or more, gives what the plain layout gives, up to
origins. -/
theorem layout_map_bare (channels : Channels) (hlimit : ∀ n ∈ limit, 0 ≤ n)
    (hasked : limit = some 0 ∨ Unambiguous (LookedUp (asked calls node)))
    (hkey : node.isKey = true) (p : Profile) :
    ((layout p node).run ((make channels limit).replay calls)).1.map LayoutResult.bare =
      (layoutOf p node).map LayoutResult.bare := by
  have hanswers : Answers limit (Comparison.bare p).Layouts (layoutOf p node.bare)
      ((layout p node).run ((make channels limit).replay calls)).1 := answers_layout hasked hkey
  rw [answers_iff hlimit, Comparison.rel_layouts_bare] at hanswers
  rw [hanswers, layoutOf_bare]

/-- A layout of such an engine that fails has failed plainly. -/
theorem layoutOf_of_layout_eq_error {channels : Channels}
    (hasked : limit = some 0 ∨ Unambiguous (LookedUp (asked calls node))) {e : LayoutError}
    (h : ((layout p node).run ((make channels limit).replay calls)).1 = .error (.layout e)) :
    layoutOf p node = .error (.layout e) := by
  cases hkey : node.isKey with
  | false =>
    rw [run_layout_of_not_isKey hkey] at h
    cases h
  | true =>
    have hanswers : Answers limit (Comparison.bare p).Layouts (layoutOf p node.bare)
        ((layout p node).run ((make channels limit).replay calls)).1 := answers_layout hasked hkey
    rw [h, layoutOf_bare] at hanswers
    rcases hanswers with hanswer | ⟨-, hgives⟩
    · exact Except.map_eq_error.mp (Comparison.rel_layouts_bare.mp hanswer).symm
    · cases hgives

/-- What fails plainly fails by way of such an engine, if it may keep nothing or more. -/
theorem layout_eq_error {channels : Channels} (hlimit : ∀ n ∈ limit, 0 ≤ n)
    (hasked : limit = some 0 ∨ Unambiguous (LookedUp (asked calls node)))
    (hkey : node.isKey = true) {f : Failure} (h : layoutOf p node = .error f) :
    ((layout p node).run ((make channels limit).replay calls)).1 = .error f := by
  have hanswer := layout_map_bare channels hlimit hasked hkey p
  rw [h] at hanswer
  exact Except.map_eq_error.mp hanswer

end

end RecordLayout.Engine
