import RecordLayout.Proofs.Layout.Coupling
import RecordLayout.Proofs.Layout.EngineRun

/-!
# Computations in lockstep

Two computations that may fail, each with a state of its own, are in lockstep along a relation between
the states when they come to something related from related states, with the same failures, and leave
related states behind.  The states may be of different types: an engine can go in lockstep with
another engine, or with a machine that only remembers what it was asked.

Two engines whose entries correspond find, keep and drop entries together.  What has to be shown of
such a relation is what it says of a look-up that hits and of a layout that is kept
(`Engine.Bisimulation`); that the engines answer alike follows.

## Main definitions

* `Lockstep` relates two computations;
* `Engine.Bisimulation` has the laws of a relation between engines that is kept by look-ups.

## Main results

* `Lockstep.bind`: what follows on computations in lockstep is in lockstep;
* `Engine.Bisimulation.coupling`: the settings of two such engines are coupled;
* `Engine.Bisimulation.lockstep_layout`: a layout by way of two such engines.
-/

namespace RecordLayout

/-- From related states the two computations come to something related, or to the same failure, and
leave related states. -/
def Lockstep {σ τ α β : Type} (R : σ → τ → Prop) (Q : α → β → Prop)
    (x : ExceptT Failure (StateM σ) α) (y : ExceptT Failure (StateM τ) β) : Prop :=
  ∀ s t, R s t → Except.Rel Eq Q (x.run s).1 (y.run t).1 ∧ R (x.run s).2 (y.run t).2

namespace Lockstep

variable {σ τ α β γ δ : Type} {R : σ → τ → Prop} {Q : α → β → Prop} {P : γ → δ → Prop}
  {x : ExceptT Failure (StateM σ) α} {y : ExceptT Failure (StateM τ) β}

theorem bind {h : α → ExceptT Failure (StateM σ) γ} {k : β → ExceptT Failure (StateM τ) δ}
    (hx : Lockstep R Q x y) (hk : ∀ a b, Q a b → Lockstep R P (h a) (k b)) :
    Lockstep R P (x >>= h) (y >>= k) := by
  intro s t hst
  have hst' := hx s t hst
  rw [EngineM.run_bind, EngineM.run_bind]
  revert hst'
  rcases x.run s with ⟨o, s'⟩
  rcases y.run t with ⟨o', t'⟩
  rintro ⟨hsame, hst'⟩
  cases hsame with
  | ok related => exact hk _ _ related s' t' hst'
  | error same => exact ⟨.error same, hst'⟩

theorem imp {Q' : α → β → Prop} (h : Lockstep R Q x y) (hQ : ∀ a b, Q a b → Q' a b) :
    Lockstep R Q' x y :=
  fun s t hst => ⟨(h s t hst).1.imp hQ, (h s t hst).2⟩

theorem pure {a : α} {b : β} (h : Q a b) : Lockstep R Q (pure a) (pure b) :=
  fun _ _ hst => ⟨.ok h, hst⟩

theorem throw (f : Failure) : Lockstep R Q (throw f) (throw f) := fun _ _ hst => ⟨.error rfl, hst⟩

theorem modify {f : σ → σ} {g : τ → τ} (h : ∀ s t, R s t → R (f s) (g t)) :
    Lockstep R Eq (modify f) (modify g) := fun s t hst => ⟨.ok rfl, h s t hst⟩

theorem modifyGet {f : σ → α × σ} {g : τ → β × τ}
    (h : ∀ s t, R s t → Q (f s).1 (g t).1 ∧ R (f s).2 (g t).2) :
    Lockstep R Q (modifyGet f) (modifyGet g) := fun s t hst => ⟨.ok (h s t hst).1, (h s t hst).2⟩

theorem get_bind {h : σ → ExceptT Failure (StateM σ) α} {k : τ → ExceptT Failure (StateM τ) β}
    (hk : ∀ s t, R s t → Lockstep R Q (h s) (k t)) : Lockstep R Q (get >>= h) (get >>= k) :=
  fun s t hst => hk s t hst s t hst

theorem adapt (hx : Lockstep R Q x y) (g : Failure → Failure) :
    Lockstep R Q (ExceptT.adapt g x) (ExceptT.adapt g y) := by
  intro s t hst
  have hst' := hx s t hst
  rw [EngineM.run_adapt, EngineM.run_adapt]
  revert hst'
  rcases x.run s with ⟨o, s'⟩
  rcases y.run t with ⟨o', t'⟩
  rintro ⟨hsame, hst'⟩
  cases hsame with
  | ok related => exact ⟨.ok related, hst'⟩
  | error same => exact ⟨.error (congrArg g same), hst'⟩

end Lockstep

/-! ## Engines in lockstep -/

namespace Engine

/-- The laws of a relation between engines, the first asked under `p` and the second under `q`, that
is kept by look-ups of the types in `D`: the engines find corresponding entries or none, and keep
corresponding layouts. -/
structure Bisimulation {p q : Profile} (C : Comparison p q) (R : Engine → Engine → Prop)
    (D : TypeNode → Prop) : Prop where
  find? : ∀ {e e'}, R e e' → ∀ node,
    Option.Rel
      (fun x x' => C.Layouts x.stored.result x'.stored.result ∧ R (e.touch x) (e'.touch x'))
      (e.find? node p) (e'.find? node q)
  lookupNote : ∀ {e e'}, R e e' → ∀ outcome node,
    R (e.writeNote "cache" (lookupNote outcome node p))
      (e'.writeNote "cache" (lookupNote outcome node q))
  writeNotes : ∀ {e e'}, R e e' → ∀ messages,
    R (e.writeNotes "bitfields" messages) (e'.writeNotes "bitfields" messages)
  keep : ∀ {e e' node r r'}, R e e' → D node → C.Layouts r r' →
    C.Layouts (e.keep node p r).1.result (e'.keep node q r').1.result ∧
      R (e.keep node p r).2 (e'.keep node q r').2
  isOverdrawn : ∀ {e e'}, R e e' → e'.isOverdrawn = e.isOverdrawn

namespace Bisimulation

variable {p q : Profile} {C : Comparison p q} {R : Engine → Engine → Prop} {D : TypeNode → Prop}
  (B : Bisimulation C R D)

include B

/-- **A look-up** serves corresponding layouts if it computes them. -/
theorem lockstep_serve {x y : EngineM LayoutResult} (h : Lockstep R C.Layouts x y)
    {node : TypeNode} (hnode : D node) :
    Lockstep R (fun stored stored' => C.Layouts stored.result stored'.result) (serve p node x)
      (serve q node y) := by
  intro e e' he
  unfold serve
  cases hkey : node.isKey with
  | false => exact ⟨.error rfl, he⟩
  | true =>
    simp only [Bool.not_true, Bool.false_eq_true, if_false, EngineM.run_get_bind]
    have hfind := B.find? he node
    generalize e.find? node p = found at hfind
    generalize e'.find? node q = found' at hfind
    cases hfind with
    | some hfound => exact ⟨.ok hfound.1, B.lookupNote hfound.2 "hit" node⟩
    | none =>
      -- Both miss, compute and keep; what the computations have kept by then corresponds.
      have hmiss : Lockstep R Eq (modify fun e => e.writeNote "cache" (Engine.lookupNote "miss" node p))
          (modify fun e => e.writeNote "cache" (Engine.lookupNote "miss" node q)) :=
        .modify fun e e' he => B.lookupNote he "miss" node
      refine hmiss.bind (fun _ _ _ => ?_) e e' he
      refine h.bind fun r r' hr => ?_
      have hkeep : Lockstep R (fun stored stored' => C.Layouts stored.result stored'.result)
          (modifyGet fun e => e.keep node p r) (modifyGet fun e => e.keep node q r') :=
        .modifyGet fun e e' he => B.keep he hnode hr
      refine hkeep.bind fun stored stored' hs => ?_
      refine Lockstep.get_bind fun e e' he => ?_
      rw [B.isOverdrawn he]
      cases e.isOverdrawn with
      | true => exact .throw _
      | false => exact .pure hs

omit B in
/-- The settings of the two engines are coupled, for one and the same aggregate at a time. -/
def coupling (B : Bisimulation C R D) :
    Coupling (setting p) (setting q) C fun a b => a = b ∧ D (.aggregate a) where
  Relates := Lockstep R
  of_pure := .pure
  bind := .bind
  fail := .throw
  within _ hx := hx.adapt _
  note messages := .modify fun _ _ he => B.writeNotes he messages
  fetch same hx := by
    obtain ⟨rfl, ha⟩ := same
    exact (B.lockstep_serve hx ha).bind fun _ _ hs => .pure hs

/-- **A layout** by way of the two engines, if it is computed alike. -/
theorem lockstep_layout {node : TypeNode} (h : B.coupling.Measures node node) (hnode : D node) :
    Lockstep R C.Layouts (layout p node) (layout q node) := by
  -- The type asked for is itself looked up, and so are the aggregates inside of it.
  have hserve := (B.lockstep_serve h.compute hnode).adapt (Failure.push node.rootName)
  exact hserve.bind fun _ _ hs => .pure hs

end Bisimulation

end Engine

end RecordLayout
