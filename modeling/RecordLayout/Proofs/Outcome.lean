import Mathlib.Data.List.Forall2
import RecordLayout.Failure

/-!
# Outcomes

How a computation that may fail comes to return something: a chain returns what its last part
returns, when all parts before it return.

Two computations are related when they return related results or fail with related failures.  The
chains of related computations are related, so two runs that differ in a parameter only are compared
step by step.

## Main definitions

* `Except.Rel` compares two computations, and `Except.Alike` does so for any failures.

## Main results

* `Except.bind_eq_ok`, `Except.map_eq_ok`, `Except.throw_ne_ok`: chains, images and failures;
* `Except.mapM_eq_ok`, `Except.exists_of_mapM_eq_error`: lists of computations;
* `Except.foldlM_induction`, `Except.foldlM_eq_foldl`, `Except.foldlM_eq_mapM`,
  `Except.foldlM_eq_error`: folds of computations;
* `Failure.within_eq_ok`: a name on the path of a failure is no part of a result;
* `Except.Rel.bind`, `Except.Rel.foldlM`: chains and folds of related computations;
* `Except.rel_eq_iff`: computations that fail alike and return the same up to views.
-/

/-- Of two lists that are related item by item, each item of the second is related to one of the
first. -/
theorem List.Forall₂.exists_of_mem_right {α β : Type} {R : α → β → Prop} {xs : List α} {ys : List β}
    (h : List.Forall₂ R xs ys) {y : β} (hy : y ∈ ys) : ∃ x ∈ xs, R x y := by
  induction h with
  | nil => cases hy
  | cons hxy _ ih =>
    rcases List.mem_cons.mp hy with rfl | hy
    · exact ⟨_, List.mem_cons_self, hxy⟩
    · obtain ⟨x, hx, hxy⟩ := ih hy
      exact ⟨x, List.mem_cons_of_mem _ hx, hxy⟩

namespace Except

variable {ε α β : Type}

@[simp] theorem bind_eq_ok {x : Except ε α} {f : α → Except ε β} {b : β} :
    x >>= f = .ok b ↔ ∃ a, x = .ok a ∧ f a = .ok b := by
  cases x with
  | ok a =>
    change f a = .ok b ↔ _
    simp
  | error e =>
    change (.error e : Except ε β) = .ok b ↔ _
    simp

theorem toOption_eq_some {x : Except ε α} {a : α} : x.toOption = some a ↔ x = .ok a := by
  cases x <;> simp [Except.toOption]

theorem exists_of_isOk {x : Except ε α} (h : x.isOk = true) : ∃ a, x = .ok a := by
  cases x with
  | error e => cases h
  | ok a => exact ⟨a, rfl⟩

/-- A chain fails as its first part that fails. -/
theorem bind_eq_error {x : Except ε α} {f : α → Except ε β} {e : ε} :
    x >>= f = .error e ↔ x = .error e ∨ ∃ a, x = .ok a ∧ f a = .error e := by
  cases x with
  | ok a =>
    change f a = .error e ↔ _
    simp
  | error e' =>
    change (.error e' : Except ε β) = .error e ↔ _
    simp

@[simp] theorem map_eq_ok {x : Except ε α} {f : α → β} {b : β} :
    x.map f = .ok b ↔ ∃ a, x = .ok a ∧ f a = b := by
  cases x <;> simp [Except.map]

@[simp] theorem map_eq_error {x : Except ε α} {f : α → β} {e : ε} :
    x.map f = .error e ↔ x = .error e := by
  cases x <;> simp [Except.map]

@[simp] theorem mapError_eq_ok {ε' : Type} {x : Except ε α} {f : ε → ε'} {a : α} :
    x.mapError f = .ok a ↔ x = .ok a := by
  cases x <;> simp [Except.mapError]

@[simp] theorem throw_ne_ok {e : ε} {a : α} : (throw e : Except ε α) ≠ .ok a := nofun

@[simp] theorem pure_eq_ok {a b : α} : (pure a : Except ε α) = .ok b ↔ a = b :=
  Except.ok.injEq a b ▸ Iff.rfl

/-- What each step of a fold preserves holds of the result. -/
theorem foldlM_induction {f : β → α → Except ε β} {P : β → Prop} {xs : List α} {b b' : β}
    (h : xs.foldlM f b = .ok b') (start : P b)
    (step : ∀ x ∈ xs, ∀ c c', f c x = .ok c' → P c → P c') : P b' := by
  induction xs generalizing b with
  | nil => exact Except.pure_eq_ok.mp h ▸ start
  | cons x xs ih =>
    rw [List.forall_mem_cons] at step
    rw [List.foldlM_cons] at h
    obtain ⟨c, hc, h⟩ := Except.bind_eq_ok.mp h
    exact ih h (step.1 b c hc start) step.2

/-- A fold fails at one of its steps, in the state that the steps before it lead to. -/
theorem foldlM_eq_error {f : β → α → Except ε β} {xs : List α} {b : β} {e : ε}
    (h : xs.foldlM f b = .error e) :
    ∃ before x after c, xs = before ++ x :: after ∧ before.foldlM f b = .ok c ∧
      f c x = .error e := by
  induction xs generalizing b with
  | nil => exact absurd h nofun
  | cons x xs ih =>
    rw [List.foldlM_cons] at h
    rcases bind_eq_error.mp h with hx | ⟨c, hc, h⟩
    · exact ⟨[], x, xs, b, rfl, rfl, hx⟩
    · obtain ⟨before, y, after, d, rfl, hbefore, hy⟩ := ih h
      refine ⟨x :: before, y, after, d, rfl, ?_, hy⟩
      rw [List.foldlM_cons]
      exact bind_eq_ok.mpr ⟨c, hc, hbefore⟩

/-- A fold whose steps all return is a plain fold. -/
theorem foldlM_eq_foldl {f : β → α → Except ε β} {g : β → α → β} {xs : List α}
    (h : ∀ x ∈ xs, ∀ c, f c x = .ok (g c x)) (b : β) : xs.foldlM f b = .ok (xs.foldl g b) := by
  induction xs generalizing b with
  | nil => rfl
  | cons x xs ih =>
    rw [List.forall_mem_cons] at h
    rw [List.foldlM_cons, h.1]
    exact ih h.2 (g b x)

/-- A fold whose steps fail on their items alone checks all items first. -/
theorem foldlM_eq_mapM {γ : Type} {f : β → α → Except ε β} {check : α → Except ε γ}
    {g : β → γ → β} {P : β → Prop} {xs : List α} {b : β}
    (h : ∀ x ∈ xs, ∀ b, P b → f b x = (check x).map (g b)) (hP : ∀ b c, P b → P (g b c))
    (hb : P b) : xs.foldlM f b = (xs.mapM check).map fun cs => cs.foldl g b := by
  induction xs generalizing b with
  | nil => rfl
  | cons x xs ih =>
    rw [List.forall_mem_cons] at h
    rw [List.foldlM_cons, List.mapM_cons, h.1 b hb]
    cases check x with
    | error e => rfl
    | ok c =>
      show xs.foldlM f (g b c) = _
      rw [ih h.2 (hP b c hb)]
      cases xs.mapM check <;> rfl

/-- A list of computations returns the list of what each of them returns. -/
theorem mapM_eq_ok {f : α → Except ε β} {xs : List α} {ys : List β} :
    xs.mapM f = .ok ys ↔ List.Forall₂ (fun x y => f x = .ok y) xs ys := by
  induction xs generalizing ys with
  | nil =>
    rw [List.mapM_nil, pure_eq_ok, List.forall₂_nil_left_iff]
    exact eq_comm
  | cons x xs ih =>
    rw [List.mapM_cons, bind_eq_ok, List.forall₂_cons_left_iff]
    refine exists_congr fun y => ?_
    rw [exists_and_left, bind_eq_ok]
    refine and_congr_right fun _ => exists_congr fun zs => and_congr ih ?_
    rw [pure_eq_ok]
    exact eq_comm

/-- What a list of computations returns is what one of them returns. -/
theorem exists_of_mapM_eq_ok {f : α → Except ε β} {xs : List α} {ys : List β}
    (h : xs.mapM f = .ok ys) : ∀ y ∈ ys, ∃ x ∈ xs, f x = .ok y :=
  fun _ hy => (mapM_eq_ok.mp h).exists_of_mem_right hy

/-- When a list of computations returns, each of them does. -/
theorem exists_of_mem_of_mapM_eq_ok {f : α → Except ε β} {xs : List α} {ys : List β}
    (h : xs.mapM f = .ok ys) : ∀ x ∈ xs, ∃ y ∈ ys, f x = .ok y :=
  fun _ hx => (mapM_eq_ok.mp h).flip.exists_of_mem_right hx

/-- A list of computations fails as one of them fails. -/
theorem exists_of_mapM_eq_error {f : α → Except ε β} {xs : List α} {e : ε}
    (h : xs.mapM f = .error e) : ∃ x ∈ xs, f x = .error e := by
  induction xs with
  | nil => exact absurd h nofun
  | cons x xs ih =>
    rw [List.mapM_cons] at h
    rcases bind_eq_error.mp h with hx | ⟨y, -, h⟩
    · exact ⟨x, List.mem_cons_self, hx⟩
    rcases bind_eq_error.mp h with hxs | ⟨ys, -, h⟩
    · obtain ⟨z, hz, hfz⟩ := ih hxs
      exact ⟨z, List.mem_cons_of_mem x hz, hfz⟩
    · exact absurd h nofun

/-- A view of what a list of computations returns is what the views of each of them are. -/
theorem map_mapM {γ : Type} (f : α → Except ε β) (view : β → γ) (xs : List α) :
    (xs.mapM f).map (List.map view) = xs.mapM fun x => (f x).map view := by
  induction xs with
  | nil => rfl
  | cons x xs ih =>
    rw [List.mapM_cons, List.mapM_cons, ← ih]
    cases f x with
    | error e => rfl
    | ok b => cases xs.mapM f <;> rfl

theorem mapM_eq_mapM {γ : Type} {f : α → Except ε γ} {g : β → Except ε γ} {xs : List α}
    {ys : List β} (h : List.Forall₂ (fun x y => f x = g y) xs ys) : xs.mapM f = ys.mapM g := by
  induction h with
  | nil => rfl
  | cons hxy _ ih => rw [List.mapM_cons, List.mapM_cons, hxy, ih]

/-! ## Two computations -/

/-- Two computations return related results, or fail with related failures. -/
inductive Rel {ε' : Type} (E : ε → ε' → Prop) (R : α → β → Prop) : Except ε α → Except ε' β → Prop
  | ok {a : α} {b : β} (related : R a b) : Rel E R (.ok a) (.ok b)
  | error {e : ε} {e' : ε'} (related : E e e') : Rel E R (.error e) (.error e')

/-- Two computations return related results, or both fail. -/
abbrev Alike (R : α → β → Prop) : Except ε α → Except ε β → Prop := Rel (fun _ _ => True) R

section Rel

variable {ε' γ δ : Type} {E : ε → ε' → Prop} {R : α → β → Prop} {x : Except ε α} {y : Except ε' β}

/-- What is related is what the computations return. -/
theorem Rel.returned (h : Rel E R x y) : Rel E (fun a b => R a b ∧ x = .ok a ∧ y = .ok b) x y := by
  cases h with
  | ok related => exact .ok ⟨related, rfl, rfl⟩
  | error related => exact .error related

/-- A computation is related to itself. -/
theorem Rel.refl {E : ε → ε → Prop} {R : α → α → Prop} (hE : ∀ e, E e e) {x : Except ε α}
    (h : ∀ a, x = .ok a → R a a) : Rel E R x x := by
  cases x with
  | error e => exact .error (hE e)
  | ok a => exact .ok (h a rfl)

theorem Alike.same (x : Except ε α) : Alike Eq x x := .refl (fun _ => trivial) fun _ _ => rfl

theorem Rel.imp {Q : α → β → Prop} (h : Rel E R x y) (hQ : ∀ a b, R a b → Q a b) : Rel E Q x y := by
  cases h with
  | ok related => exact .ok (hQ _ _ related)
  | error related => exact .error related

theorem Rel.map {Q : γ → δ → Prop} {f : α → γ} {g : β → δ} (h : Rel E R x y)
    (hfg : ∀ a b, R a b → Q (f a) (g b)) : Rel E Q (x.map f) (y.map g) := by
  cases h with
  | ok related => exact .ok (hfg _ _ related)
  | error related => exact .error related

theorem Rel.bind {Q : γ → δ → Prop} {f : α → Except ε γ} {g : β → Except ε' δ} (h : Rel E R x y)
    (hfg : ∀ a b, R a b → Rel E Q (f a) (g b)) : Rel E Q (x >>= f) (y >>= g) := by
  cases h with
  | ok related => exact hfg _ _ related
  | error related => exact .error related

/-- Steps that keep states related, over items that are related one by one, end in related
states. -/
theorem Rel.foldlM {P : γ → δ → Prop} {f : α → γ → Except ε α} {g : β → δ → Except ε' β}
    (hfg : ∀ c d a b, P c d → R a b → Rel E R (f a c) (g b d)) {xs : List γ} {ys : List δ}
    (h : List.Forall₂ P xs ys) {a : α} {b : β} (hab : R a b) :
    Rel E R (xs.foldlM f a) (ys.foldlM g b) := by
  induction h generalizing a b with
  | nil => exact .ok hab
  | cons hcd _ ih =>
    rw [List.foldlM_cons, List.foldlM_cons]
    exact (hfg _ _ a b hcd hab).bind fun a' b' hab' => ih hab'

/-- Two computations fail alike and return the same, each seen through a view, when one is the other
through these views. -/
theorem rel_eq_iff {f : α → γ} {g : β → γ} {y : Except ε β} :
    Rel Eq (fun a b => g b = f a) x y ↔ y.map g = x.map f := by
  constructor
  · rintro (related | rfl)
    · exact congrArg Except.ok related
    · rfl
  · intro h
    cases x with
    | error e => exact map_eq_error.mp h ▸ .error rfl
    | ok a =>
      obtain ⟨b, rfl, hb⟩ := map_eq_ok.mp h
      exact .ok hb

theorem rel_eq {x y : Except ε α} : Rel Eq Eq x y ↔ y = x := by
  constructor
  · rintro (rfl | rfl) <;> rfl
  · rintro rfl
    exact .refl (fun _ => rfl) fun _ _ => rfl

/-- Computations that are alike return together, and what they return is related. -/
theorem alike_iff {y : Except ε β} : Alike R x y ↔
    ((∃ a, x = .ok a) ↔ ∃ b, y = .ok b) ∧ ∀ a b, x = .ok a → y = .ok b → R a b := by
  constructor
  · rintro (related | related)
    · simpa using related
    · simp
  · rintro ⟨hreturn, hrelated⟩
    cases x with
    | error e =>
      cases y with
      | error e' => exact .error trivial
      | ok b => exact absurd (hreturn.mpr ⟨b, rfl⟩) (by simp)
    | ok a =>
      obtain ⟨b, rfl⟩ := hreturn.mp ⟨a, rfl⟩
      exact .ok (hrelated a b rfl rfl)

end Rel

end Except

namespace RecordLayout.Failure

@[simp] theorem within_eq_ok {α : Type} {name : String} {x : Except Failure α} {a : α} :
    within name x = .ok a ↔ x = .ok a := by
  cases x <;> simp

theorem map_within {α β : Type} (name : String) (x : Except Failure α) (f : α → β) :
    (within name x).map f = within name (x.map f) := by
  cases x <;> rfl

/-- A name on the path of two failures keeps them related, if it does so for single failures. -/
theorem within_rel {α β : Type} {E : Failure → Failure → Prop} {R : α → β → Prop} {name : String}
    (hE : ∀ f g, E f g → E (f.push name) (g.push name)) {x : Except Failure α}
    {y : Except Failure β} (h : x.Rel E R y) : (within name x).Rel E R (within name y) := by
  cases h with
  | ok related => exact .ok related
  | error related => exact .error (hE _ _ related)

end RecordLayout.Failure
