import RecordLayout.Proofs.Layout.Aligned

/-!
# Where the checks of a layout fail

A failed layout has a path, the names of the members that lead to the fault.  The checks that a
layout is made of fail without a path: a name is added only where the failure passes through a
member or through the root.

A computation is compared with a second one here, which runs on a part of the same type.  Where the
two fail together, the fault is in that part; where only the first one fails, it is in the rest.

## Main definitions

* `Failure.IsAt` says that a failure is that of a layout, at a path of a certain form;
* `FailsAt` says it of all failures of a computation;
* `FailsAlong` compares a computation with a second one.

## Main results

* `FailsAt.bind`, `FailsAt.within`: chains, and names on a path;
* `FailsAlong.bind`: chains of compared computations;
* `failsAt_place`: a bitfield is refused without a path, and with an aligned profile always for a
  fault of the layout.
-/

namespace RecordLayout

/-- What a name adds to the path of a failure: an empty one adds nothing. -/
def pathStep (name : Option String) : List String := (nonemptyName? name).toList

theorem LayoutError.path_push_getD (e : LayoutError) (name : Option String) :
    (e.push (name.getD "")).path = pathStep name ++ e.path := by
  cases name with
  | none => rfl
  | some name =>
    by_cases hname : name = ""
    · subst hname
      rfl
    · rw [Option.getD_some, path_push hname]
      simp [pathStep, nonemptyName?, Option.filter, hname]

/-- A failure of a layout at a path that satisfies `Q`.  That no window has room for a field is no
failure of the layout, but then the profile has passed no check. -/
inductive Failure.IsAt (p : Profile) (Q : List String → Prop) : Failure → Prop
  | layout {e : LayoutError} (path : Q e.path) : IsAt p Q (.layout e)
  | emptyWindow (unchecked : ¬ p.IsAligned) : IsAt p Q .emptyWindow

/-- A computation that fails only at paths that satisfy `Q`. -/
def FailsAt (p : Profile) (Q : List String → Prop) {α : Type} (x : Except Failure α) : Prop :=
  ∀ f, x = .error f → f.IsAt p Q

section

variable {p : Profile} {Q R : List String → Prop} {α β γ δ : Type} {x : Except Failure α}

/-! ## Failures at a path -/

theorem Failure.IsAt.mono {f : Failure} (h : f.IsAt p Q) (hQ : ∀ path, Q path → R path) :
    f.IsAt p R := by
  cases h with
  | layout path => exact .layout (hQ _ path)
  | emptyWindow unchecked => exact .emptyWindow unchecked

namespace FailsAt

@[simp] theorem ok (a : α) : FailsAt p Q (.ok a) := nofun

theorem ofCause {c : LayoutError.Cause} (h : Q []) :
    FailsAt p Q (.error (.ofCause c) : Except Failure α) := by
  rintro _ ⟨⟩
  exact .layout h

theorem mono (h : FailsAt p Q x) (hQ : ∀ path, Q path → R path) : FailsAt p R x :=
  fun f hf => (h f hf).mono hQ

theorem bind {k : α → Except Failure β} (hx : FailsAt p Q x)
    (hk : ∀ a, x = .ok a → FailsAt p Q (k a)) : FailsAt p Q (x >>= k) := by
  intro f hf
  rcases Except.bind_eq_error.mp hf with hf | ⟨a, ha, hf⟩
  · exact hx f hf
  · exact hk a ha f hf

theorem map {g : α → β} (hx : FailsAt p Q x) : FailsAt p Q (x.map g) :=
  fun f hf => hx f (Except.map_eq_error.mp hf)

/-- The name of a member comes first on the path of a failure that passes through it. -/
theorem within {name : Option String} (hx : FailsAt p Q x) :
    FailsAt p (fun path => ∃ rest, path = pathStep name ++ rest ∧ Q rest)
      (Failure.within (name.getD "") x) := by
  intro f hf
  cases x with
  | ok a => cases hf
  | error g =>
    cases hf
    cases hx g rfl with
    | layout path => exact .layout ⟨_, LayoutError.path_push_getD _ name, path⟩
    | emptyWindow unchecked => exact .emptyWindow unchecked

end FailsAt

/-! ## Checks -/

theorem failsAt_checkAligned (requested : Int) (what : String) :
    FailsAt p (· = []) (checkAligned requested what) := by
  unfold checkAligned
  split
  · exact .ok ()
  · exact .ofCause rfl

theorem failsAt_primitiveExtent (q : Primitive) : FailsAt p (· = []) (p.primitiveExtent q) := by
  unfold Profile.primitiveExtent
  split
  · exact .ofCause rfl
  · split
    · exact .ofCause rfl
    · refine .map ?_
      unfold Profile.primitiveAlignment
      split
      · exact .ok _
      · split
        · exact .ok _
        · exact .ofCause rfl

theorem failsAt_checkRequested (m : Member) : FailsAt p (· = []) (p.checkRequested m) := by
  unfold Profile.checkRequested
  split
  · exact .ok ()
  · refine .bind (failsAt_checkAligned _ _) fun _ _ => ?_
    split
    · exact .ofCause rfl
    · exact .ok _

theorem failsAt_dimensionSizes (dims : List Json) :
    FailsAt p (· = []) (dimensionSizes dims) := by
  induction dims with
  | nil => exact .ok _
  | cons d ds ih =>
    cases d with
    | int n =>
      rw [dimensionSizes]
      split
      · exact .ofCause rfl
      · exact .map ih
    | null | bool | float | text | array | object => exact .ofCause rfl

theorem failsAt_arrayCount (e : TypeNode) (dims : List Json) :
    FailsAt p (· = []) (arrayCount e dims) := by
  unfold arrayCount
  cases dims.isEmpty with
  | true => exact .ofCause rfl
  | false =>
    refine .bind (failsAt_dimensionSizes dims) fun sizes _ => ?_
    split
    · exact .ofCause rfl
    · exact .ok _

theorem failsAt_checkFlexibleElement (e : TypeNode) :
    FailsAt p (· = []) (checkFlexibleElement e) := by
  unfold checkFlexibleElement
  split
  · exact .ofCause rfl
  · exact .ok ()

theorem failsAt_packCap (a : Aggregate) : FailsAt p (· = []) a.packCap := by
  unfold Aggregate.packCap
  cases a.pack with
  | none => exact .ok _
  | some pack =>
    dsimp only
    cases alignmentOf? pack with
    | none => exact .ofCause rfl
    | some n => exact .ok _

theorem failsAt_alignmentFrom (a : Aggregate) (alignment : Int) :
    FailsAt p (· = []) (a.alignmentFrom alignment) := by
  unfold Aggregate.alignmentFrom
  split
  · exact .ok _
  · exact .map (failsAt_checkAligned _ _)

theorem failsAt_bitfieldOf (m : Member) (cap : Option Int) (base : Primitive)
    (width : Json) : FailsAt p (· = []) (bitfieldOf p m cap base width) := by
  unfold bitfieldOf
  cases m.attributes.requested? with
  | some requested => exact .ofCause rfl
  | none =>
    exact .bind (failsAt_primitiveExtent base) fun natural _ => .ok _

theorem failsAt_checkedWidth (f : Bitfield.Field) : FailsAt p (· = []) f.checkedWidth := by
  unfold Bitfield.Field.checkedWidth
  split
  · exact .ofCause rfl
  · dsimp only
    split
    · exact .ofCause rfl
    · exact .ok _

theorem Bitfield.failure_refuseWindow (p : Profile) (f : Field) (cursor : Int)
    (unit : Option OpenUnit) : (refuseWindow p f cursor unit).failure = .emptyWindow := by
  cases unit with
  | none => rfl
  | some u =>
    unfold refuseWindow
    dsimp only
    split <;> rfl

/-- **A bitfield is refused without a path**, for its width or because no window has room for it. -/
theorem failsAt_place {m : Member} {cap : Option Int} {base : Primitive} {width : Json}
    {f : Bitfield.Field} (hf : bitfieldOf p m cap base width = .ok f) (cursor : Int)
    (unit : Option Bitfield.OpenUnit) : FailsAt p (· = []) (Bitfield.place p f cursor unit) := by
  intro failure hfailure
  unfold Bitfield.place Bitfield.attempt at hfailure
  cases hwidth : f.checkedWidth with
  | error failure' =>
    rw [hwidth] at hfailure
    cases hfailure
    exact failsAt_checkedWidth f _ hwidth
  | ok width =>
    simp only [hwidth] at hfailure
    split at hfailure
    · rename_i hwindow
      cases hfailure
      dsimp only
      rw [Bitfield.failure_refuseWindow]
      refine .emptyWindow fun hp => ?_
      obtain ⟨natural, -, hnatural, rfl⟩ := bitfieldOf_eq_ok hf
      have hpos := Number.pos_of_isPowerOfTwo (Profile.isPowerOfTwo_primitiveExtent hp hnatural)
      simp only [Bitfield.Field.hasEmptyWindow, Bool.and_eq_true, decide_eq_true_eq] at hwindow
      omega
    · cases hfailure

/-! ## Failures along a second computation -/

/-- Wherever the first computation fails, it fails at a path that satisfies `Q`, or without a path,
and then the second computation fails, too. -/
def FailsAlong (p : Profile) (Q : List String → Prop) (x : Except Failure α)
    (y : Except Failure β) : Prop :=
  FailsAt p (fun path => Q path ∨ path = [] ∧ ∀ b, y ≠ .ok b) x

namespace FailsAlong

variable {y : Except Failure β}

theorem of_failsAt (h : FailsAt p Q x) (y : Except Failure β) : FailsAlong p Q x y :=
  h.mono fun _ => .inl

theorem mono (h : FailsAlong p Q x y) (hQ : ∀ path, Q path → R path) : FailsAlong p R x y :=
  FailsAt.mono h fun path => .imp (hQ path) id

/-- A computation without a path for its failures, and one that fails with it. -/
theorem together (hx : FailsAt p (· = []) x) (h : (∀ a, x ≠ .ok a) → ∀ b, y ≠ .ok b) :
    FailsAlong p Q x y := by
  intro f hf
  have hfails : ∀ b, y ≠ .ok b := h fun a ha => by rw [hf] at ha; cases ha
  exact (hx f hf).mono fun path hpath => .inr ⟨hpath, hfails⟩

/-- A computation along itself. -/
theorem self (hx : FailsAt p (· = []) x) : FailsAlong p Q x x := together hx id

theorem map {g : α → γ} {g' : β → δ} (h : FailsAlong p Q x y) :
    FailsAlong p Q (x.map g) (y.map g') := by
  refine FailsAt.map (FailsAt.mono h ?_)
  rintro path (hpath | ⟨hpath, hy⟩)
  · exact .inl hpath
  · refine .inr ⟨hpath, fun d hd => ?_⟩
    obtain ⟨b, hb, -⟩ := Except.map_eq_ok.mp hd
    exact hy b hb

theorem bind [Nonempty β] {k : α → Except Failure γ} {l : β → Except Failure δ}
    (hx : FailsAlong p Q x y) (hk : ∀ a, x = .ok a → ∀ b, FailsAlong p Q (k a) (l b)) :
    FailsAlong p Q (x >>= k) (y >>= l) := by
  refine FailsAt.bind (FailsAt.mono hx ?_) fun a ha => ?_
  · rintro path (hpath | ⟨hpath, hy⟩)
    · exact .inl hpath
    · refine .inr ⟨hpath, fun d hd => ?_⟩
      obtain ⟨b, hb, -⟩ := Except.bind_eq_ok.mp hd
      exact hy b hb
  · cases y with
    | ok b => exact hk a ha b
    | error g =>
      obtain ⟨b⟩ := ‹Nonempty β›
      refine FailsAt.mono (hk a ha b) ?_
      rintro path (hpath | ⟨hpath, -⟩)
      · exact .inl hpath
      · exact .inr ⟨hpath, nofun⟩

end FailsAlong

end

end RecordLayout
