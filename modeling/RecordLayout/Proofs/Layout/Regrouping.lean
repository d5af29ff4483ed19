import RecordLayout.Proofs.Layout.Resemblance
import RecordLayout.Proofs.Layout.Unambiguous
import RecordLayout.Proofs.TypeTree.Regrouping

/-!
# Layouts of regrouped arrays

Making a nested array flat does not show in a layout: it fails for the same kind of reason and at
the same path, or has the same figures.  The two arrays have as many elements, and everything around
them only sees how much room they take.

By way of an engine this takes types that are unambiguous.  An engine that lays out two equal keys
checks only the first, and regrouping an array of the first makes it another key
(`Engine.layout_pair`).

## Main results

* `dimensionSizes_positive`, `arrayCount_positive`: the number of elements of an array with positive
  dimensions;
* `TypeNode.Regrouped.measures`: the two types measure alike;
* `TypeNode.Regrouped.layoutOf_matches`: the two layouts match;
* `Engine.layout_regrouped`: so do the layouts by way of engines, and the two types are declared
  alike.
-/

namespace RecordLayout

/-! ## Numbers of elements -/

/-- Positive dimensions are their own sizes. -/
theorem dimensionSizes_positive {sizes : List Int} (h : ∀ n ∈ sizes, 0 < n) :
    dimensionSizes (sizes.map Json.int) = .ok sizes := by
  induction sizes with
  | nil => rfl
  | cons n sizes ih =>
    rw [List.forall_mem_cons] at h
    rw [List.map_cons, dimensionSizes, if_neg (Int.not_le.mpr h.1), ih h.2]
    rfl

/-- **The number of elements** of an array with positive dimensions, if its elements can stand
alone. -/
theorem arrayCount_positive {e : TypeNode} {sizes : List Int} (some_sizes : sizes ≠ [])
    (h : ∀ n ∈ sizes, 0 < n) :
    arrayCount e (sizes.map Json.int) =
      match e.memberOnly? with
      | some kind => .error (.ofCause (.arrayOf kind))
      | none => .ok (sizes.foldl (· * ·) 1) := by
  have hsome : (sizes.map Json.int).isEmpty = false := by simpa using some_sizes
  rw [arrayCount, hsome, dimensionSizes_positive h]
  cases e.memberOnly? <;> rfl

/-- What cannot stand alone counts for the number of elements, and nothing else of the element. -/
theorem matches_arrayCount {e e' : TypeNode} (h : e'.memberOnly? = e.memberOnly?)
    (dims : List Json) : Matches Eq (arrayCount e dims) (arrayCount e' dims) := by
  cases dims with
  | nil => exact .error (.layout rfl rfl)
  | cons d ds =>
    rw [arrayCount_congr h (List.cons_ne_nil d ds)]
    exact .refl .same fun _ _ => rfl

namespace TypeNode

variable {p : Profile} {e e' t u : TypeNode}

/-! ## Extents -/

/-- The extent of an array. -/
theorem extent_array (p : Profile) (e : TypeNode) (dims : List Json) :
    ((TypeNode.array e dims).measure Setting.pure p).extent = (do
      let count ← arrayCount e dims
      let x ← (e.measure Setting.pure p).extent
      return { size := x.size * count, alignment := x.alignment }) := by
  simp only [measure, Setting.pure_lift]

/-- **An array of arrays takes as much room** as the flat array with the dimensions of both. -/
theorem extent_nested {outer inner : List Int} (some_outer : outer ≠ []) (some_inner : inner ≠ [])
    (positive : ∀ n ∈ outer ++ inner, 0 < n) :
    ((TypeNode.array (.array e (inner.map Json.int)) (outer.map Json.int)).measure
        Setting.pure p).extent =
      ((TypeNode.array e ((outer ++ inner).map Json.int)).measure Setting.pure p).extent := by
  have hpositive := List.forall_mem_append.mp positive
  have hflat : outer ++ inner ≠ [] := List.append_ne_nil_of_left_ne_nil some_outer inner
  rw [extent_array, arrayCount_positive some_outer hpositive.1, extent_array, extent_array,
    arrayCount_positive some_inner hpositive.2, arrayCount_positive hflat positive]
  cases e.memberOnly? with
  | some kind => rfl
  | none =>
    cases (e.measure Setting.pure p).extent with
    | error f => rfl
    | ok x =>
      have hsize : x.size * inner.foldl (· * ·) 1 * outer.foldl (· * ·) 1 =
          x.size * (outer ++ inner).foldl (· * ·) 1 := by
        simp only [← List.prod_eq_foldl]
        rw [List.prod_append, Int.mul_assoc, Int.mul_comm inner.prod]
      exact congrArg (fun n => Except.ok ({ size := n, alignment := x.alignment } : Extent)) hsize

/-! ## Regrouping -/

namespace Regrouped

/-- Regrouping does not change how a member is placed. -/
theorem sameForm (h : t.Regrouped u) : t.SameForm u := by
  cases h with
  | here | array => exact .value ⟨rfl, rfl⟩ ⟨rfl, rfl⟩
  | flexibleArray => exact .flexibleArray _ _
  | member => exact .aggregate _ _

/-- **The two types measure alike.**  The induction is on where the array is. -/
theorem measures (h : t.Regrouped u) (p : Profile) : (Coupling.resembling p).Measures t u := by
  induction h with
  | @here e outer inner some_outer some_inner positive =>
    refine .array_of_extent rfl ?_
    rw [extent_nested some_outer some_inner positive]
    exact .refl .same fun _ _ => rfl
  | @array e e' dims inside ih =>
    have hcount := matches_arrayCount inside.sameForm.memberOnly?_eq dims
    rw [← Setting.pure_lift (arrayCount e dims), ← Setting.pure_lift (arrayCount e' dims)] at hcount
    exact .array rfl hcount ih
  | flexibleArray inside ih => exact .flexibleArray inside.sameForm.memberOnly?_eq ih
  | @member a before after x type members inside ih =>
    have hself (y : Member) : (Coupling.resembling p).Knows y y :=
      .resembling rfl rfl (.refl _) (Coupling.resembling_self p y.type)
    refine .aggregate trivial (Coupling.relates_compute rfl rfl rfl rfl ?_)
    rw [members]
    refine List.rel_append (List.forall₂_same.mpr fun y _ => hself y) (.cons ?_ ?_)
    · exact .resembling rfl rfl inside.sameForm ih
    · exact List.forall₂_same.mpr fun y _ => hself y

/-- **The layouts of the two types match**, under any profile. -/
theorem layoutOf_matches (h : t.Regrouped u) (p : Profile) :
    Matches SameFigures (layoutOf p t) (layoutOf p u) := by
  rw [layoutOf, layoutOf, h.rootName_eq]
  exact (Coupling.resembling p).within _ (h.measures p).compute

end Regrouped

end TypeNode

/-! ## Engines -/

namespace Engine

variable {t u : TypeNode} {p : Profile} {channels channels' : Channels} {limit limit' : Option Int}
  {calls calls' : List Call}

/-- Engines, whatever they were asked before, give matching layouts of types that match. -/
theorem matches_layout (h : Matches SameFigures (layoutOf p t) (layoutOf p u))
    (hkey : u.isKey = t.isKey) (hlimit : ∀ n ∈ limit, 0 ≤ n) (hlimit' : ∀ n ∈ limit', 0 ≤ n)
    (hasked : limit = some 0 ∨ Unambiguous (LookedUp (asked calls t)))
    (hasked' : limit' = some 0 ∨ Unambiguous (LookedUp (asked calls' u))) :
    Matches SameFigures ((layout p t).run ((make channels limit).replay calls)).1
      ((layout p u).run ((make channels' limit').replay calls')).1 := by
  cases ht : t.isKey with
  | false =>
    rw [run_layout_of_not_isKey ht, run_layout_of_not_isKey (hkey.trans ht)]
    exact .error (.same _)
  | true =>
    exact h.of_map_bare (layout_map_bare channels hlimit hasked ht p)
      (layout_map_bare channels' hlimit' hasked' (hkey.trans ht) p)

/-- **Nested and flat arrays are interchangeable**: the two types are declared alike, and their
layouts match under any profile and by way of any engines. -/
theorem layout_regrouped (h : t.Regrouped u) :
    (∀ indent name, u.declare indent name = t.declare indent name) ∧
      (∀ p, Matches SameFigures (layoutOf p t) (layoutOf p u)) ∧
      ∀ p channels channels' limit limit' calls calls',
        (∀ n ∈ limit, 0 ≤ n) → (∀ n ∈ limit', 0 ≤ n) →
        (limit = some 0 ∨ Unambiguous (LookedUp (asked calls t))) →
        (limit' = some 0 ∨ Unambiguous (LookedUp (asked calls' u))) →
        Matches SameFigures ((layout p t).run ((make channels limit).replay calls)).1
          ((layout p u).run ((make channels' limit').replay calls')).1 := by
  refine ⟨h.declare_eq, h.layoutOf_matches, ?_⟩
  intro p channels channels' limit limit' calls calls' hlimit hlimit' hasked hasked'
  exact matches_layout (h.layoutOf_matches p) h.isKey_eq hlimit hlimit' hasked hasked'

/-- An array of numbers. -/
def numbers (dims : List Json) : TypeNode := .array (.primitive ⟨"int", some (.int 4), none⟩) dims

/-- A row with a single member. -/
def row (x : TypeNode) : Aggregate where
  kind := .struct
  members := [⟨x, some "x", .none⟩]
  name := some "row"
  pack := none
  attributes := .none
  origin := .written ["row"]

/-- An array of arrays of numbers in a row is regrouped. -/
theorem regrouped_row {outer inner : List Int} (some_outer : outer ≠ []) (some_inner : inner ≠ [])
    (positive : ∀ n ∈ outer ++ inner, 0 < n) :
    (TypeNode.aggregate (row (.array (numbers (inner.map Json.int)) (outer.map Json.int)))).Regrouped
      (.aggregate (row (numbers ((outer ++ inner).map Json.int)))) := by
  have hmembers : (row (.array (numbers (inner.map Json.int)) (outer.map Json.int))).members =
      [] ++ ⟨.array (numbers (inner.map Json.int)) (outer.map Json.int), some "x", .none⟩ :: [] :=
    rfl
  have hrow := TypeNode.Regrouped.member hmembers (.here some_outer some_inner positive)
  exact hrow

/-- A row of two by three numbers is laid out as the row that is written the other way, also when
each engine was asked for the other row before. -/
theorem layout_regrouped_row :
    Matches SameFigures
      ((layout .lp64 (.aggregate (row (.array (numbers [.int 3]) [.int 2])))).run
        ((make [] none).replay [.layout .lp64 (.aggregate (row (numbers [.int 2, .int 3])))])).1
      ((layout .lp64 (.aggregate (row (numbers [.int 2, .int 3])))).run
        ((make [] none).replay
          [.layout .lp64 (.aggregate (row (.array (numbers [.int 3]) [.int 2])))])).1 := by
  have hrow : (TypeNode.aggregate (row (.array (numbers [.int 3]) [.int 2]))).Regrouped
      (.aggregate (row (numbers [.int 2, .int 3]))) :=
    @regrouped_row [2] [3] (by decide) (by decide) (by decide)
  have hnested : ∀ root ∈ asked [.layout .lp64 (.aggregate (row (numbers [.int 2, .int 3])))]
      (.aggregate (row (.array (numbers [.int 3]) [.int 2]))), root.isIntegral = true :=
    isIntegral_of_mem_asked (by decide) (by decide)
  have hflat : ∀ root ∈ asked
      [.layout .lp64 (.aggregate (row (.array (numbers [.int 3]) [.int 2])))]
      (.aggregate (row (numbers [.int 2, .int 3]))), root.isIntegral = true :=
    isIntegral_of_mem_asked (by decide) (by decide)
  exact (layout_regrouped hrow).2.2 .lp64 [] [] none none _ _ nofun nofun
    (.inr (unambiguous_of_isIntegral hnested)) (.inr (unambiguous_of_isIntegral hflat))

/-- A pair of rows, the second with a flag for a dimension. -/
def pair (x : TypeNode) : Aggregate where
  kind := .struct
  members :=
    [⟨.aggregate (row x), some "first", .none⟩,
     ⟨.aggregate (row (.array (numbers [.int 1]) [.bool true])), some "second", .none⟩]
  name := some "pair"
  pack := none
  attributes := .none
  origin := .written ["pair"]

/-- **An engine answers for the second row with the first** while both are nested, and refuses the
second when the first is flat. -/
theorem layout_pair :
    (TypeNode.aggregate (pair (.array (numbers [.int 1]) [.int 1]))).Regrouped
        (.aggregate (pair (numbers [.int 1, .int 1]))) ∧
      ((layout .lp64 (.aggregate (pair (.array (numbers [.int 1]) [.int 1])))).run
        (make [] none)).1.isOk = true ∧
      ((layout .lp64 (.aggregate (pair (numbers [.int 1, .int 1])))).run (make [] none)).1 =
        .error (.layout ⟨.arrayDimension (.bool true), ["pair", "second", "x"]⟩) := by
  have hmembers : (pair (.array (numbers [.int 1]) [.int 1])).members =
      [] ++ ⟨.aggregate (row (.array (numbers [.int 1]) [.int 1])), some "first", .none⟩ ::
        [⟨.aggregate (row (.array (numbers [.int 1]) [.bool true])), some "second", .none⟩] :=
    rfl
  have hrow : (TypeNode.aggregate (row (.array (numbers [.int 1]) [.int 1]))).Regrouped
      (.aggregate (row (numbers [.int 1, .int 1]))) :=
    @regrouped_row [1] [1] (by decide) (by decide) (by decide)
  have hpair := TypeNode.Regrouped.member hmembers hrow
  exact ⟨hpair, by decide, by rfl⟩

end Engine

end RecordLayout
