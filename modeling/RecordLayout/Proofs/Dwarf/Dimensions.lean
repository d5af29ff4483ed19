import Mathlib.Algebra.BigOperators.Group.List.Basic
import Mathlib.Algebra.Ring.Int.Defs
import RecordLayout.Proofs.Dwarf.EntryType
import RecordLayout.Proofs.Layout.EngineRun
import RecordLayout.Proofs.Layout.Induction

/-!
# Dimensions of recorded arrays

An array of arrays may be recorded as one entry with several dimensions, as one entry on top of
another, or with a typedef in between.  What is built nests arrays in one way or another, and the
nesting does not matter: read from the outside in, the dimensions are those of the entry in the
order in which they are recorded, and then those of the element type.  So the size of an array is
that of what remains without any dimensions, times all of them.

## Main definitions

* `TypeNode.dims` are the dimensions of an array from the outside in, and `TypeNode.leaf` is what
  remains without them;
* `IsOpen` says of a dimension that it gives no number of elements.

## Main results

* `Engine.extent_leaf`: the extent of an array comes from that of its leaf;
* `dims_arrayOf`: one entry adds its dimensions in front of those of the element type;
* `build_dimensions`: what is built for the entry of an array.
-/

namespace RecordLayout

namespace TypeNode

/-- The dimensions of an array, and then those of its elements. -/
def dims : TypeNode → List Json
  | .array e ds => ds ++ e.dims
  | _ => []

/-- What remains of a type without the dimensions of arrays. -/
def leaf : TypeNode → TypeNode
  | .array e _ => e.leaf
  | node => node

@[simp] theorem dims_array (e : TypeNode) (ds : List Json) : (array e ds).dims = ds ++ e.dims := rfl

end TypeNode

/-! ## Extents -/

namespace Engine

variable {p : Profile} {engine engine' : Engine} {x : Extent}

theorem run_lift {α : Type} (y : Except Failure α) (engine : Engine) :
    ((measuring p).lift y).run engine = (y, engine) := by
  cases y <;> rfl

/-- **The natural extent of an array comes from that of its leaf**, which is measured with the same
engine.  One more array multiplies the size by its own dimensions. -/
theorem measure_leaf : (node : TypeNode) → (x : Extent) → (engine' : Engine) →
    (node.measure (measuring p) p).extent.run engine = (.ok x, engine') →
    ∃ (y : Extent) (sizes : List Int),
      (node.leaf.measure (measuring p) p).extent.run engine = (.ok y, engine') ∧
      node.dims = sizes.map Json.int ∧ x.size = y.size * sizes.prod ∧ x.alignment = y.alignment
  | .array e ds, x, engine', h => by
    simp only [TypeNode.measure, EngineM.run_bind, run_lift] at h
    cases hcount : arrayCount e ds with
    | error f =>
      rw [hcount] at h
      cases h
    | ok count =>
      rw [hcount] at h
      dsimp only at h
      rcases hinner : (e.measure (measuring p) p).extent.run engine with ⟨f | z, engine₁⟩
      · rw [hinner] at h
        cases h
      · rw [hinner] at h
        obtain ⟨hx, rfl⟩ := Prod.mk.inj h
        obtain rfl := Except.ok.inj hx
        obtain ⟨y, inner, hrun, hdims, hsize, halignment⟩ := measure_leaf e z engine₁ hinner
        obtain ⟨-, sizes, hsizes, rfl⟩ := arrayCount_eq_ok hcount
        obtain ⟨rfl, -⟩ := dimensionSizes_eq_ok hsizes
        refine ⟨y, sizes ++ inner, hrun, ?_, ?_, halignment⟩
        · rw [TypeNode.dims_array, hdims, List.map_append]
        · calc z.size * sizes.foldl (· * ·) 1
              = y.size * inner.prod * sizes.prod := by rw [hsize, ← List.prod_eq_foldl]
            _ = y.size * (sizes ++ inner).prod := by
              rw [List.prod_append, Int.mul_comm sizes.prod, Int.mul_assoc]
  | .primitive _, x, _, h | .aggregate _, x, _, h | .flexibleArray _, x, _, h
  | .bitfield _ _, x, _, h | .incomplete _, x, _, h | .unknown _, x, _, h =>
    ⟨x, [], h, rfl, (Int.mul_one _).symm, rfl⟩

/-- **The extent of an array comes from that of its leaf** under the same cap. -/
theorem extent_leaf {node : TypeNode} {cap : Option Int}
    (h : (extent p node cap).run engine = (.ok x, engine')) :
    ∃ (y : Extent) (sizes : List Int), (extent p node.leaf cap).run engine = (.ok y, engine') ∧
      node.dims = sizes.map Json.int ∧ x.size = y.size * sizes.prod ∧
      x.alignment = y.alignment := by
  unfold extent at h ⊢
  rw [EngineM.run_bind] at h
  rcases hnatural : (node.measure (measuring p) p).extent.run engine with ⟨f | z, engine₁⟩
  · rw [hnatural] at h
    cases h
  · rw [hnatural] at h
    obtain ⟨hx, rfl⟩ := Prod.mk.inj h
    obtain rfl := Except.ok.inj hx
    obtain ⟨y, sizes, hrun, hdims, hsize, halignment⟩ := measure_leaf node z engine₁ hnatural
    refine ⟨y.capped cap, sizes, ?_, hdims, hsize, ?_⟩
    · rw [EngineM.run_bind, hrun]
      rfl
    · show capAlignment z.alignment cap = capAlignment y.alignment cap
      rw [halignment]

end Engine

namespace Dwarf

/-! ## One entry -/

/-- A dimension is open when it gives no number of elements, or none at all. -/
def IsOpen (count : Option Quantity) : Prop := ∀ q ∈ count, q.value = 0

section Arrays

variable {info : Info} {d : Die} {e node : TypeNode} {first : Option Quantity}
  {cs : List Quantity}

theorem givenCount?_eq_none {count : Option Quantity} :
    givenCount? count = none ↔ IsOpen count := by
  cases count with
  | none => exact ⟨fun _ => nofun, fun _ => rfl⟩
  | some q => simp [givenCount?, IsOpen]

theorem givenCount?_some {q : Quantity} (h : 0 < q.value) : givenCount? (some q) = some q := by
  have hne : q.value ≠ 0 := by omega
  simp [givenCount?, hne]

theorem mapM_givenCount? (h : ∀ c ∈ cs, 0 < c.value) :
    (cs.map some).mapM givenCount? = some cs := by
  induction cs with
  | nil => rfl
  | cons c cs ih =>
    rw [List.forall_mem_cons] at h
    simp [givenCount?_some h.1, ih h.2]

theorem dims_addDimension (count : Quantity) (e : TypeNode) :
    (addDimension count e).dims = count.constant :: e.dims ∧
      (addDimension count e).leaf = e.leaf := by
  cases e <;> exact ⟨rfl, rfl⟩

/-- **One entry adds its dimensions in front** of those of the element type.  The inner dimensions
are given; the outermost one joins them, unless it is open. -/
theorem dims_arrayOf (hcounts : countsOf d = first :: cs.map some) (hcs : ∀ c ∈ cs, 0 < c.value)
    (e : TypeNode) : ∃ n : TypeNode, n.dims = cs.map Quantity.constant ++ e.dims ∧ n.leaf = e.leaf ∧
      arrayOf d e =
        match givenCount? first with
        | none => .ok (.flexibleArray n)
        | some count => .ok (addDimension count n) := by
  refine ⟨if cs.isEmpty then e else .array e (cs.map Quantity.constant), ?_, ?_, ?_⟩
  · cases cs <;> rfl
  · cases cs <;> rfl
  · unfold arrayOf
    rw [hcounts]
    dsimp only
    rewrite [mapM_givenCount? hcs]
    rfl

theorem mapM_givenCount?_eq_none {inner : List (Option Quantity)} (h : ∃ c ∈ inner, IsOpen c) :
    inner.mapM givenCount? = none := by
  induction inner with
  | nil => simp at h
  | cons c inner ih =>
    rw [List.mapM_cons]
    by_cases hc : IsOpen c
    · rw [givenCount?_eq_none.mpr hc]
      rfl
    · rw [ih (by simpa [hc] using h)]
      cases givenCount? c <;> rfl

/-- An inner dimension that is open is refused, whatever the element type is. -/
theorem arrayOf_of_isOpen {inner : List (Option Quantity)} (hcounts : countsOf d = first :: inner)
    (hopen : ∃ c ∈ inner, IsOpen c) (e : TypeNode) :
    arrayOf d e = .error (.ofCause (.variableInnerDimension d.offset)) := by
  unfold arrayOf
  rw [hcounts]
  dsimp only
  rw [mapM_givenCount?_eq_none hopen]

theorem canonical_of_array (htag : d.tag = arrayTag) : info.canonical d = d := by
  apply Info.canonical_of_isAggregate_eq_false
  rw [Die.isAggregate, htag]
  rfl

end Arrays

/-! ## What is built -/

section Builds

variable {info : Info} {d : Die} {e : TypeNode} {calls calls' : List Builder.Call}
  (hoffsets : (info.dies.map (·.offset)).Nodup) (hcalls : ∀ call ∈ calls, call.IsAbout info)
  (hcalls' : ∀ call ∈ calls', call.IsAbout info) (hd : d ∈ info.dies) (htag : d.tag = arrayTag)
  (helement : ((build info (info.typeOf? d)).run (Builder.fresh.replay info calls)).1 = .ok e)

include hoffsets hcalls hcalls' hd htag helement

/-- An array is built from its element type. -/
theorem build_of_arrayOf_eq_ok {node : TypeNode} (h : arrayOf d e = .ok node) :
    ((build info (some d)).run (Builder.fresh.replay info calls')).1 = .ok node := by
  have htype := (run_build_eq_ok_iff hoffsets hcalls fun _ => Info.mem_of_typeOf?).mp helement
  refine (run_build_eq_ok_iff hoffsets hcalls' (Info.forall_mem_some hd)).mpr (.of_builtEntry ?_)
  rw [canonical_of_array htag]
  exact .array htag htype h

/-- An array that is refused whatever its element type is, is refused each time. -/
theorem build_of_arrayOf_eq_error {f : Failure} (h : ∀ element, arrayOf d element = .error f) :
    ((build info (some d)).run (Builder.fresh.replay info calls')).1 = .error f := by
  have hself : info.canonical d = d := canonical_of_array htag
  have htype := (run_build_eq_ok_iff hoffsets hcalls fun _ => Info.mem_of_typeOf?).mp helement
  have hidle := Builder.isIdle_fresh.replay hoffsets hcalls'
  generalize hb : Builder.fresh.replay info calls' = b at hidle ⊢
  cases hfind : b.find? (info.canonical d).offset with
  | some node =>
    -- Nothing is kept for the entry, as it has no type.
    have hnode : ((build info (some d)).run b).1 = .ok node := by
      rw [build, depthBound, run_buildTo_of_find? hfind]
    rw [← hb] at hnode
    have hnodeType := (run_build_eq_ok_iff hoffsets hcalls' (Info.forall_mem_some hd)).mp hnode
    have hbuilt := hnodeType.builtEntry
    rw [hself] at hbuilt
    obtain ⟨element, -, harray⟩ := (builtEntry_iff_of_array htag).mp hbuilt
    rw [h] at harray
    cases harray
  | none =>
    have hdepth : info.dies.length ≤ 2 * info.dies.length + 1 := by omega
    obtain ⟨b', hrun, -⟩ := htype.returns hoffsets (fun _ => Info.mem_of_typeOf?) hdepth b
      hidle.sound hidle.building_eq
    rw [build, depthBound, run_buildTo_of_find?_eq_none hfind, hself, buildEntry_of_array htag]
    simp only [BuildM.run_bind, hrun, BuildM.run_check, h]

/-- **A recorded array keeps every dimension in order.**  The dimensions of what is built, from the
outside in, are those of the entry and then those of the element type, and they alone make the size
of the array from that of its leaf.  Only the first dimension may be open. -/
theorem build_dimensions {first : Option Quantity} {inner : List (Option Quantity)}
    (hcounts : countsOf d = first :: inner) :
    (∀ cs : List Quantity, first :: inner = cs.map some → (∀ c ∈ cs, 0 < c.value) →
      ∃ n ds,
        ((build info (some d)).run (Builder.fresh.replay info calls')).1 = .ok (.array n ds) ∧
        (TypeNode.array n ds).dims = cs.map Quantity.constant ++ e.dims ∧
        (TypeNode.array n ds).leaf = e.leaf ∧
        ∀ (p : Profile) (cap : Option Int) (engine engine' : Engine) (x : Extent),
          (Engine.extent p (.array n ds) cap).run engine = (.ok x, engine') →
          ∃ (y : Extent) (sizes : List Int),
            (Engine.extent p e.leaf cap).run engine = (.ok y, engine') ∧
            cs.map Quantity.constant ++ e.dims = sizes.map Json.int ∧
            x.size = y.size * sizes.prod) ∧
    (∀ cs : List Quantity, IsOpen first → inner = cs.map some → (∀ c ∈ cs, 0 < c.value) →
      ∃ n,
        ((build info (some d)).run (Builder.fresh.replay info calls')).1 = .ok (.flexibleArray n) ∧
        n.dims = cs.map Quantity.constant ++ e.dims ∧ n.leaf = e.leaf) ∧
    ((∃ c ∈ inner, IsOpen c) →
      ((build info (some d)).run (Builder.fresh.replay info calls')).1 =
          .error (.ofCause (.variableInnerDimension d.offset)) ∧
        (LayoutError.Cause.variableInnerDimension d.offset).kind = .unsupportedConstruct) := by
  refine ⟨fun cs hcs hpos => ?_, fun cs hopen hcs hpos => ?_, fun hopen => ⟨?_, rfl⟩⟩
  · cases cs with
    | nil => cases hcs
    | cons c cs =>
      obtain ⟨rfl, rfl⟩ := List.cons.inj hcs
      rw [List.forall_mem_cons] at hpos
      obtain ⟨n, hdims, hleaf, harray⟩ := dims_arrayOf hcounts hpos.2 e
      rw [givenCount?_some hpos.1] at harray
      have hbuilt := build_of_arrayOf_eq_ok hoffsets hcalls hcalls' hd htag helement harray
      obtain ⟨hdims', hleaf'⟩ := dims_addDimension c n
      obtain ⟨n', ds, hnode⟩ := exists_addDimension c n
      rw [hnode] at hbuilt hdims' hleaf'
      have hall : (TypeNode.array n' ds).dims = (c :: cs).map Quantity.constant ++ e.dims := by
        rw [hdims', hdims]
        rfl
      refine ⟨n', ds, hbuilt, hall, hleaf'.trans hleaf, fun p cap engine engine' x hx => ?_⟩
      obtain ⟨y, sizes, hy, hsizes, hsize, -⟩ := Engine.extent_leaf hx
      rw [hleaf', hleaf] at hy
      exact ⟨y, sizes, hy, hall.symm.trans hsizes, hsize⟩
  · subst hcs
    obtain ⟨n, hdims, hleaf, harray⟩ := dims_arrayOf hcounts hpos e
    rw [givenCount?_eq_none.mpr hopen] at harray
    exact ⟨n, build_of_arrayOf_eq_ok hoffsets hcalls hcalls' hd htag helement harray, hdims, hleaf⟩
  · exact build_of_arrayOf_eq_error hoffsets hcalls hcalls' hd htag helement
      (arrayOf_of_isOpen hcounts hopen)

end Builds

/-- Two rows of three rows of numbers: the inner rows have a name and a dimension of their own. -/
def grid : Die :=
  ⟨arrayTag, 5, 8, true, [], some 4,
    [⟨dimensionTag, 6, 8, false, [("DW_AT_upper_bound", .ofInt 1)], none, []⟩,
     ⟨dimensionTag, 7, 8, false, [("DW_AT_count", .ofInt 3)], none, []⟩]⟩

/-- The type of numbers, the rows and the grid. -/
def grids : Info := .ofRoots .little 8
  [⟨baseTag, 1, 8, false, [("DW_AT_name", .text "int"), ("DW_AT_byte_size", .ofInt 4)], none, []⟩,
   ⟨arrayTag, 2, 8, true, [], some 1,
    [⟨dimensionTag, 3, 8, false, [("DW_AT_count", .ofInt 4)], none, []⟩]⟩,
   ⟨typedefTag, 4, 8, false, [("DW_AT_name", .text "row")], some 2, []⟩, grid]

/-- The grid is built once more, with the dimensions of the rows at the inner end. -/
theorem build_dimensions_grid :
    (grids.dies.map (·.offset)).Nodup ∧ grid ∈ grids.dies ∧
      countsOf grid = [some (.int 2), some (.int 3)] ∧
      ∃ e, ((build grids (grids.typeOf? grid)).run .fresh).1 = .ok e ∧ ∃ n ds,
        ((build grids (some grid)).run (Builder.fresh.replay grids [.build (some grid)])).1 =
          .ok (.array n ds) ∧
        (TypeNode.array n ds).dims = [.int 2, .int 3, .int 4] ∧
        (TypeNode.array n ds).leaf = .primitive ⟨"int", some (.int 4), none⟩ := by
  have hoffsets : (grids.dies.map (·.offset)).Nodup := by decide +kernel
  have hmem : grid ∈ grids.dies := .tail _ (.tail _ (.tail _ (.tail _ (.head _))))
  have hcounts : countsOf grid = [some (.int 2), some (.int 3)] := by decide +kernel
  have hcalls' : ∀ call ∈ [Builder.Call.build (some grid)], call.IsAbout grids := by
    rw [List.forall_mem_singleton]
    exact Info.forall_mem_some hmem
  have helement : ((build grids (grids.typeOf? grid)).run (Builder.fresh.replay grids [])).1 =
      .ok (.array (.primitive ⟨"int", some (.int 4), none⟩) [.int 4]) := rfl
  have hpos : ∀ c ∈ [Quantity.int 2, .int 3], 0 < c.value := by decide
  have hall := build_dimensions hoffsets (List.forall_mem_nil _) hcalls' hmem rfl helement hcounts
  obtain ⟨n, ds, hbuilt, hdims, hleaf, -⟩ := hall.1 _ rfl hpos
  exact ⟨hoffsets, hmem, hcounts, _, helement, n, ds, hbuilt, hdims, hleaf⟩

end Dwarf

end RecordLayout
