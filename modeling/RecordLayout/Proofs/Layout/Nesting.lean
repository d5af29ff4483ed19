import Mathlib.Algebra.Ring.Int.Defs
import RecordLayout.Layout.Result

/-!
# Layouts inside of layouts

A field deep inside of an aggregate is reached through the members around it, each a direct member
of the layout of the one before.  Its place in the whole is the sum of all their offsets.

## Main definitions

* `MemberChain` relates a layout to a field inside of it and the members that lead there;
* `chainOffset` is the place of such a field in the whole.

## Main results

* `LayoutResult.nested_induction`: induction on the layouts inside of a layout.
-/

namespace RecordLayout

/-- The way from a layout to a field inside of it: through each of the members in turn, a direct
member of the layout so far, into its own layout. -/
inductive MemberChain : LayoutResult → List MemberLayout → MemberLayout → Prop
  | direct {r : LayoutResult} {m : MemberLayout} (direct : m ∈ r.direct) : MemberChain r [] m
  | into {r n : LayoutResult} {o m : MemberLayout} {ms : List MemberLayout} (direct : o ∈ r.direct)
      (layout : o.layout = some n) (inside : MemberChain n ms m) : MemberChain r (o :: ms) m

/-- The place of the last member of a chain, counted from where the chain starts. -/
def chainOffset (ms : List MemberLayout) (m : MemberLayout) : Int :=
  (ms.map (·.byteOffset)).sum + m.byteOffset

@[simp] theorem chainOffset_nil (m : MemberLayout) : chainOffset [] m = m.byteOffset := by
  simp [chainOffset]

@[simp] theorem chainOffset_cons (o : MemberLayout) (ms : List MemberLayout) (m : MemberLayout) :
    chainOffset (o :: ms) m = o.byteOffset + chainOffset ms m := by
  simp [chainOffset, Int.add_assoc]

@[simp] theorem chainOffset_append (ms : List MemberLayout) (o : MemberLayout)
    (ms' : List MemberLayout) (m : MemberLayout) :
    chainOffset (ms ++ o :: ms') m = chainOffset ms o + chainOffset ms' m := by
  simp [chainOffset, Int.add_assoc]

theorem LayoutResult.mem_direct {r : LayoutResult} {m : MemberLayout} :
    m ∈ r.direct ↔ m ∈ r.members ∧ m.promoted = false := by
  simp [LayoutResult.direct]

/-- A chain may go on inside of its last member. -/
theorem MemberChain.append {r n : LayoutResult} {o m : MemberLayout} {ms ms' : List MemberLayout}
    (h : MemberChain r ms o) (layout : o.layout = some n) (inside : MemberChain n ms' m) :
    MemberChain r (ms ++ o :: ms') m := by
  induction h with
  | direct direct => exact .into direct layout inside
  | into direct layout' _ ih => exact .into direct layout' (ih layout)

/-- **Induction on layouts**: a property of a layout that follows from the same property of the
layouts of its members holds of all layouts. -/
theorem LayoutResult.nested_induction {motive : LayoutResult → Prop}
    (step : ∀ r, (∀ m ∈ r.members, ∀ n, m.layout = some n → motive n) → motive r)
    (r : LayoutResult) : motive r :=
  -- Layouts are nested by way of a list and an option, and the induction goes through both.
  @LayoutResult.rec (fun m => ∀ n, m.layout = some n → motive n) motive
    (fun o => ∀ n, o = some n → motive n) (fun ms => ∀ m ∈ ms, ∀ n, m.layout = some n → motive n)
    (fun _ _ _ _ _ _ _ _ _ _ _ layout => layout) (fun _ _ _ _ _ _ _ members => step _ members)
    nofun (fun _ hr _ h => Option.some.inj h ▸ hr) nofun
    (fun _ _ head tail => List.forall_mem_cons.mpr ⟨head, tail⟩) r

end RecordLayout
