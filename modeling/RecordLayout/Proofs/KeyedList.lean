import Mathlib.Data.List.Nodup
import Mathlib.Data.List.Perm.Basic

/-!
# Lists with distinct keys

## Main results

* `find?_eq_some_iff_of_nodup`: a key finds the one item that has it;
* `find?_eq_of_perm`: looking up by distinct keys does not see the order.
-/

namespace RecordLayout

variable {α : Type} {key : α → String} {xs ys : List α}

/-- In a list whose keys are distinct, a key finds the one item that has it. -/
theorem find?_eq_some_iff_of_nodup (h : (xs.map key).Nodup) {k : String} {x : α} :
    xs.find? (fun x => key x == k) = some x ↔ x ∈ xs ∧ key x = k := by
  constructor
  · intro hx
    exact ⟨List.mem_of_find?_eq_some hx, by simpa using List.find?_some hx⟩
  · rintro ⟨hx, rfl⟩
    cases hy : xs.find? fun y => key y == key x with
    | none =>
      rw [List.find?_eq_none] at hy
      exact absurd (hy x hx) (by simp)
    | some y =>
      have hk : key y = key x := by simpa using List.find?_some hy
      rw [List.inj_on_of_nodup_map h (List.mem_of_find?_eq_some hy) hx hk]

/-- Looking up by distinct keys does not see the order. -/
theorem find?_eq_of_perm (hp : xs.Perm ys) (h : (xs.map key).Nodup) (k : String) :
    xs.find? (fun x => key x == k) = ys.find? fun x => key x == k := by
  have h' : (ys.map key).Nodup := (hp.map key).nodup_iff.mp h
  ext x
  rw [find?_eq_some_iff_of_nodup h, find?_eq_some_iff_of_nodup h', hp.mem_iff]

end RecordLayout
