import RecordLayout.TypeTree.Key

/-!
# Keys fall into classes

Being the same key is symmetric, and two types that are the same key as a third one are the same
key.  A store that never adds an entry next to one of the same key therefore holds at most one entry
for each key.

A type need not be the same key as itself, since a constant that is no number equals nothing.

## Main results

* `TypeNode.sameKey_symm`: being the same key is symmetric;
* `TypeNode.sameKey_of_sameKey`: types of one class are the same key.
-/

namespace RecordLayout

/-! ## Constants -/

namespace Binary64

/-- Zeros are equal, and otherwise what is a number equals itself. -/
theorem equals_iff {x y : Binary64} :
    x.equals y = true ↔ (x.isZero = true ∧ y.isZero = true) ∨ (x = y ∧ x ≠ .nan) := by
  cases x with
  | nan => simp [equals, isZero]
  | infinity b => cases y <;> simp [equals, isZero]
  | finite b s e =>
    cases y with
    | nan => cases s <;> simp [equals, isZero]
    | infinity b' => simp [equals, isZero]
    | finite b' s' e' => cases s <;> cases s' <;> simp [equals, isZero]

theorem equals_symm {x y : Binary64} (h : x.equals y = true) : y.equals x = true := by
  rw [equals_iff] at *
  rcases h with ⟨hx, hy⟩ | ⟨rfl, hx⟩
  · exact .inl ⟨hy, hx⟩
  · exact .inr ⟨rfl, hx⟩

theorem equals_of_equals {x y z : Binary64} (hx : x.equals z = true) (hy : y.equals z = true) :
    x.equals y = true := by
  rw [equals_iff] at *
  rcases hx with ⟨hx, hz⟩ | ⟨rfl, hx⟩
  · rcases hy with ⟨hy, -⟩ | ⟨rfl, -⟩
    · exact .inl ⟨hx, hy⟩
    · exact .inl ⟨hx, hz⟩
  · rcases hy with ⟨hy, hz⟩ | ⟨rfl, -⟩
    · exact .inl ⟨hz, hy⟩
    · exact .inr ⟨rfl, hx⟩

end Binary64

namespace Json

/-- Equal constants stand for the same number, or for none. -/
theorem number?_eq_of_equals {v w : Json} (h : v.equals w = true) : v.number? = w.number? := by
  unfold equals at h
  split at h
  · rename_i m n hm hn
    rw [hm, hn, beq_iff_eq.mp h]
  · rename_i hm hn
    rw [hm, hn]
  · cases h

/-- What a constant equals that stands for no number. -/
theorem equals_iff_of_number?_eq_none {v w : Json} (hv : v.number? = none)
    (hw : w.number? = none) :
    v.equals w = true ↔ (v = .null ∧ w = .null) ∨ (∃ s, v = .text s ∧ w = .text s) ∨
      ∃ x y, v = .float x ∧ w = .float y ∧ x.equals y = true := by
  unfold equals
  rw [hv, hw]
  cases v with
  | null => cases w <;> simp
  | text s =>
    cases w with
    | text t => simpa using eq_comm
    | _ => simp
  | float x => cases w <;> simp
  | bool | int | array | object => simp

theorem equals_symm {v w : Json} (h : v.equals w = true) : w.equals v = true := by
  have hvw := number?_eq_of_equals h
  -- Constants that are numbers are compared as such, all others by kind.
  cases hw : w.number? with
  | some k =>
    unfold equals
    rw [hvw, hw]
    exact beq_self_eq_true k
  | none =>
    rw [hw] at hvw
    rw [equals_iff_of_number?_eq_none hvw hw] at h
    rw [equals_iff_of_number?_eq_none hw hvw]
    rcases h with ⟨hv, hw⟩ | ⟨s, hv, hw⟩ | ⟨x, y, hv, hw, h⟩
    · exact .inl ⟨hw, hv⟩
    · exact .inr (.inl ⟨s, hw, hv⟩)
    · exact .inr (.inr ⟨y, x, hw, hv, Binary64.equals_symm h⟩)

theorem equals_of_equals {v w u : Json} (hv : v.equals u = true) (hw : w.equals u = true) :
    v.equals w = true := by
  have hvu := number?_eq_of_equals hv
  have hwu := number?_eq_of_equals hw
  cases hu : u.number? with
  | some k =>
    unfold equals
    rw [hvu, hwu, hu]
    exact beq_self_eq_true k
  | none =>
    rw [hu] at hvu hwu
    rw [equals_iff_of_number?_eq_none hvu hu] at hv
    rw [equals_iff_of_number?_eq_none hwu hu] at hw
    rw [equals_iff_of_number?_eq_none hvu hwu]
    rcases hv with ⟨rfl, rfl⟩ | ⟨s, rfl, rfl⟩ | ⟨x, z, rfl, rfl, hx⟩
    · rcases hw with ⟨rfl, -⟩ | ⟨t, -, ht⟩ | ⟨y, z, -, hz, -⟩
      · exact .inl ⟨rfl, rfl⟩
      · cases ht
      · cases hz
    · rcases hw with ⟨-, h⟩ | ⟨t, rfl, ht⟩ | ⟨y, z, -, hz, -⟩
      · cases h
      · exact .inr (.inl ⟨s, rfl, by rw [ht]⟩)
      · cases hz
    · rcases hw with ⟨-, h⟩ | ⟨t, -, ht⟩ | ⟨y, z', rfl, hz, hy⟩
      · cases h
      · cases ht
      · cases hz
        exact .inr (.inr ⟨x, y, rfl, rfl, Binary64.equals_of_equals hx hy⟩)

end Json

theorem sameConstants_symm {vs ws : List Json} (h : sameConstants vs ws = true) :
    sameConstants ws vs = true := by
  induction vs generalizing ws with
  | nil =>
    cases ws with
    | nil => rfl
    | cons w ws => cases h
  | cons v vs ih =>
    cases ws with
    | nil => cases h
    | cons w ws =>
      simp only [sameConstants, Bool.and_eq_true] at *
      exact ⟨Json.equals_symm h.1, ih h.2⟩

theorem sameConstants_of_sameConstants {vs ws us : List Json} (hv : sameConstants vs us = true)
    (hw : sameConstants ws us = true) : sameConstants vs ws = true := by
  induction us generalizing vs ws with
  | nil =>
    cases vs with
    | nil =>
      cases ws with
      | nil => rfl
      | cons w ws => cases hw
    | cons v vs => cases hv
  | cons u us ih =>
    cases vs with
    | nil => cases hv
    | cons v vs =>
      cases ws with
      | nil => cases hw
      | cons w ws =>
        simp only [sameConstants, Bool.and_eq_true] at *
        exact ⟨Json.equals_of_equals hv.1 hw.1, ih hv.2 hw.2⟩

theorem sameConstant?_symm {v w : Option Json} (h : sameConstant? v w = true) :
    sameConstant? w v = true := by
  cases v with
  | none =>
    cases w with
    | none => rfl
    | some w => cases h
  | some v =>
    cases w with
    | none => cases h
    | some w => exact Json.equals_symm h

theorem sameConstant?_of_sameConstant? {v w u : Option Json} (hv : sameConstant? v u = true)
    (hw : sameConstant? w u = true) : sameConstant? v w = true := by
  cases u with
  | none =>
    cases v with
    | none =>
      cases w with
      | none => rfl
      | some w => cases hw
    | some v => cases hv
  | some u =>
    cases v with
    | none => cases hv
    | some v =>
      cases w with
      | none => cases hw
      | some w => exact Json.equals_of_equals hv hw

/-! ## Types -/

theorem Primitive.sameKey_symm {q r : Primitive} (h : q.sameKey r = true) :
    r.sameKey q = true := by
  simp only [sameKey, Bool.and_eq_true, beq_iff_eq] at *
  exact ⟨⟨h.1.1.symm, h.1.2.symm⟩, h.2.symm⟩

mutual
/-- **Being the same key is symmetric.** -/
theorem TypeNode.sameKey_symm : (m n : TypeNode) → m.sameKey n = true → n.sameKey m = true
  | .primitive _, .primitive _, h => Primitive.sameKey_symm h
  | .aggregate a, .aggregate b, h => Aggregate.sameKey_symm a b h
  | .array a _, .array b _, h => by
    simp only [TypeNode.sameKey, Bool.and_eq_true] at *
    exact ⟨TypeNode.sameKey_symm a b h.1, sameConstants_symm h.2⟩
  | .flexibleArray a, .flexibleArray b, h => TypeNode.sameKey_symm a b h
  | .bitfield _ _, .bitfield _ _, h => by
    simp only [TypeNode.sameKey, Bool.and_eq_true] at *
    exact ⟨Primitive.sameKey_symm h.1, Json.equals_symm h.2⟩
  | .incomplete _, .incomplete _, h => by
    simp only [TypeNode.sameKey, beq_iff_eq] at *
    exact h.symm
  | .unknown _, .unknown _, h => by
    simp only [TypeNode.sameKey, beq_iff_eq] at *
    exact h.symm

theorem Aggregate.sameKey_symm : (a b : Aggregate) → a.sameKey b = true → b.sameKey a = true
  | ⟨_, members, _, _, _, _⟩, ⟨_, members', _, _, _, _⟩, h => by
    simp only [Aggregate.sameKey, Bool.and_eq_true, beq_iff_eq] at *
    obtain ⟨⟨⟨⟨hkind, hmembers⟩, hname⟩, hpack⟩, hattributes⟩ := h
    exact ⟨⟨⟨⟨hkind.symm, sameKeys_symm members members' hmembers⟩, hname.symm⟩,
      sameConstant?_symm hpack⟩, hattributes.symm⟩

theorem sameKeys_symm : (xs ys : List Member) → sameKeys xs ys = true → sameKeys ys xs = true
  | [], [], _ => rfl
  | x :: xs, y :: ys, h => by
    simp only [sameKeys, Bool.and_eq_true] at *
    exact ⟨Member.sameKey_symm x y h.1, sameKeys_symm xs ys h.2⟩

theorem Member.sameKey_symm : (x y : Member) → x.sameKey y = true → y.sameKey x = true
  | ⟨type, _, _⟩, ⟨type', _, _⟩, h => by
    simp only [Member.sameKey, Bool.and_eq_true, beq_iff_eq] at *
    exact ⟨⟨TypeNode.sameKey_symm type type' h.1.1, h.1.2.symm⟩, h.2.symm⟩
end

theorem Primitive.sameKey_of_sameKey {q r s : Primitive} (hq : q.sameKey s = true)
    (hr : r.sameKey s = true) : q.sameKey r = true := by
  simp only [sameKey, Bool.and_eq_true, beq_iff_eq] at *
  obtain ⟨⟨hname, hsize⟩, halignment⟩ := hq
  obtain ⟨⟨hname', hsize'⟩, halignment'⟩ := hr
  exact ⟨⟨hname.trans hname'.symm, hsize.trans hsize'.symm⟩, halignment.trans halignment'.symm⟩

mutual
/-- **Types of one class are the same key.** -/
theorem TypeNode.sameKey_of_sameKey : (k m n : TypeNode) → m.sameKey k = true →
    n.sameKey k = true → m.sameKey n = true
  | .primitive _, .primitive _, .primitive _, hm, hn => Primitive.sameKey_of_sameKey hm hn
  | .aggregate c, .aggregate a, .aggregate b, hm, hn => Aggregate.sameKey_of_sameKey c a b hm hn
  | .array c _, .array a _, .array b _, hm, hn => by
    simp only [TypeNode.sameKey, Bool.and_eq_true] at *
    exact ⟨TypeNode.sameKey_of_sameKey c a b hm.1 hn.1, sameConstants_of_sameConstants hm.2 hn.2⟩
  | .flexibleArray c, .flexibleArray a, .flexibleArray b, hm, hn =>
    TypeNode.sameKey_of_sameKey c a b hm hn
  | .bitfield _ _, .bitfield _ _, .bitfield _ _, hm, hn => by
    simp only [TypeNode.sameKey, Bool.and_eq_true] at *
    exact ⟨Primitive.sameKey_of_sameKey hm.1 hn.1, Json.equals_of_equals hm.2 hn.2⟩
  | .incomplete _, .incomplete _, .incomplete _, hm, hn => by
    simp only [TypeNode.sameKey, beq_iff_eq] at *
    exact hm.trans hn.symm
  | .unknown _, .unknown _, .unknown _, hm, hn => by
    simp only [TypeNode.sameKey, beq_iff_eq] at *
    exact hm.trans hn.symm

theorem Aggregate.sameKey_of_sameKey : (c a b : Aggregate) → a.sameKey c = true →
    b.sameKey c = true → a.sameKey b = true
  | ⟨_, members, _, _, _, _⟩, ⟨_, members', _, _, _, _⟩, ⟨_, members'', _, _, _, _⟩, ha, hb => by
    simp only [Aggregate.sameKey, Bool.and_eq_true, beq_iff_eq] at *
    obtain ⟨⟨⟨⟨rfl, hmembers⟩, rfl⟩, hpack⟩, rfl⟩ := ha
    obtain ⟨⟨⟨⟨rfl, hmembers'⟩, rfl⟩, hpack'⟩, rfl⟩ := hb
    exact ⟨⟨⟨⟨rfl, sameKeys_of_sameKeys members members' members'' hmembers hmembers'⟩, rfl⟩,
      sameConstant?_of_sameConstant? hpack hpack'⟩, rfl⟩

theorem sameKeys_of_sameKeys : (zs xs ys : List Member) → sameKeys xs zs = true →
    sameKeys ys zs = true → sameKeys xs ys = true
  | [], [], [], _, _ => rfl
  | z :: zs, x :: xs, y :: ys, hx, hy => by
    simp only [sameKeys, Bool.and_eq_true] at *
    exact ⟨Member.sameKey_of_sameKey z x y hx.1 hy.1, sameKeys_of_sameKeys zs xs ys hx.2 hy.2⟩

theorem Member.sameKey_of_sameKey : (z x y : Member) → x.sameKey z = true →
    y.sameKey z = true → x.sameKey y = true
  | ⟨type, _, _⟩, ⟨type', _, _⟩, ⟨type'', _, _⟩, hx, hy => by
    simp only [Member.sameKey, Bool.and_eq_true, beq_iff_eq] at *
    obtain ⟨⟨htype, rfl⟩, rfl⟩ := hx
    obtain ⟨⟨htype', rfl⟩, rfl⟩ := hy
    exact ⟨⟨TypeNode.sameKey_of_sameKey type type' type'' htype htype', rfl⟩, rfl⟩
end

/-- A type that has an equal is one itself. -/
theorem TypeNode.sameKey_self {m n : TypeNode} (h : m.sameKey n = true) : n.sameKey n = true :=
  sameKey_of_sameKey m n n (sameKey_symm m n h) (sameKey_symm m n h)

theorem TypeNode.sameKey_comm (m n : TypeNode) : m.sameKey n = n.sameKey m :=
  Bool.eq_iff_iff.mpr ⟨sameKey_symm m n, sameKey_symm n m⟩

/-- Types that are the same key are the same key as the same types. -/
theorem TypeNode.sameKey_congr {m n : TypeNode} (h : m.sameKey n = true) (k : TypeNode) :
    k.sameKey m = k.sameKey n := by
  rw [Bool.eq_iff_iff]
  constructor
  · intro hk
    exact sameKey_of_sameKey m k n hk (sameKey_symm m n h)
  · intro hk
    exact sameKey_of_sameKey n k m hk h

theorem TypeNode.sameKey_congr_left {m n : TypeNode} (h : m.sameKey n = true) (k : TypeNode) :
    m.sameKey k = n.sameKey k := by
  rw [sameKey_comm m, sameKey_congr h, sameKey_comm k]

end RecordLayout
