import Mathlib.Data.List.DropRight
import RecordLayout.Text.Blank

/-!
# Texts without blanks at their ends

Names are stripped of the blanks around them, and lines of those at their ends.  A text that has
none to lose stays as it is, and stays so when something that does not begin or end with a blank
is put in front of it.

## Main definitions

* `Text.KeepsEnd` says that a text loses nothing when blanks are stripped behind it.

## Main results

* `Text.dropStart?_eq_some`: what is cut off a text stood in front of the rest;
* `Text.strip_strip`: stripping twice does no more than stripping once;
* `Text.strip_append`, `Text.KeepsEnd.append`: a text keeps its end behind another one.
-/

namespace RecordLayout.Text

/-! ## Beginnings -/

theorem dropList?_eq_some {start cs rest : List Char} :
    dropList? start cs = some rest ↔ cs = start ++ rest := by
  induction start generalizing cs with
  | nil => simp [dropList?]
  | cons a start ih =>
    cases cs with
    | nil => simp [dropList?]
    | cons c cs =>
      rw [dropList?]
      split
      · rename_i hac
        simp [ih, hac]
      · rename_i hac
        simp [Ne.symm hac]

/-- What is cut off a text stood in front of the rest. -/
theorem dropStart?_eq_some {start s rest : String} :
    dropStart? start s = some rest ↔ s = start ++ rest := by
  simp only [dropStart?, Option.map_eq_some_iff, dropList?_eq_some, ← String.toList_inj,
    String.toList_append]
  constructor
  · rintro ⟨cs, hcs, hrest⟩
    rw [hcs, ← hrest, String.toList_ofList]
  · intro h
    exact ⟨rest.toList, h, String.toList_ofList⟩

/-! ## Ends -/

theorem stripEnd_eq_self_iff {s : String} :
    stripEnd s = s ↔ ∀ hne : s.toList ≠ [], ¬ isBlank (s.toList.getLast hne) = true := by
  rw [← List.rdropWhile_eq_self_iff, ← String.toList_inj, stripEnd, String.toList_ofList]
  rfl

/-- A text that is not empty and does not end with a blank. -/
structure KeepsEnd (s : String) : Prop where
  ne : s ≠ ""
  stripEnd_eq : stripEnd s = s

/-- A text keeps its end behind another one. -/
theorem KeepsEnd.append {t : String} (h : KeepsEnd t) (s : String) : KeepsEnd (s ++ t) := by
  obtain ⟨hne, ht⟩ := h
  have hnil : t.toList ≠ [] := by simpa using hne
  refine ⟨by simp [hne], ?_⟩
  rw [stripEnd_eq_self_iff] at ht ⊢
  intro hst
  simp only [String.toList_append, List.getLast_append_of_ne_nil _ hnil]
  exact ht hnil

/-- Texts that keep their ends may stand behind one another. -/
theorem KeepsEnd.append_join {s : String} {ts : List String} (hs : KeepsEnd s)
    (hts : ∀ t ∈ ts, KeepsEnd t) : KeepsEnd (s ++ String.join ts) := by
  induction ts generalizing s with
  | nil => simpa using hs
  | cons t ts ih =>
    rw [List.forall_mem_cons] at hts
    rw [String.join_cons, ← String.append_assoc]
    exact ih (hts.1.append s) hts.2

/-- A text without blanks, such as an identifier, keeps its end. -/
theorem keepsEnd_of_any {s : String} (hne : s ≠ "") (h : s.toList.any isBlank = false) :
    KeepsEnd s :=
  ⟨hne, stripEnd_eq_self_iff.mpr fun hnil => List.any_eq_false.mp h _ (List.getLast_mem hnil)⟩

/-! ## Both ends -/

/-- A text without blanks at its ends neither begins nor ends with one. -/
theorem ends_of_strip_eq {s : String} (h : strip s = s) :
    s.toList.dropWhile isBlank = s.toList ∧ s.toList.rdropWhile isBlank = s.toList := by
  have hlist : (s.toList.dropWhile isBlank).rdropWhile isBlank = s.toList := by
    have hstrip := congrArg String.toList h
    rwa [strip, String.toList_ofList] at hstrip
  have hprefix := List.rdropWhile_prefix isBlank (s.toList.dropWhile isBlank)
  have hsuffix := List.dropWhile_suffix (l := s.toList) isBlank
  have hlength : (s.toList.dropWhile isBlank).length = s.toList.length := by
    have hle := hprefix.length_le
    have hle' := hsuffix.length_le
    rw [hlist] at hle
    omega
  have hdrop := hsuffix.eq_of_length hlength
  exact ⟨hdrop, by rwa [hdrop] at hlist⟩

theorem strip_strip (s : String) : strip (strip s) = strip s := by
  have hstart : ((s.toList.dropWhile isBlank).rdropWhile isBlank).dropWhile isBlank =
      (s.toList.dropWhile isBlank).rdropWhile isBlank := by
    rw [List.dropWhile_eq_self_iff]
    intro hpos
    have hprefix := List.rdropWhile_prefix isBlank (s.toList.dropWhile isBlank)
    have hfirst := List.dropWhile_get_zero_not isBlank s.toList (hpos.trans_le hprefix.length_le)
    rwa [List.get_eq_getElem, ← hprefix.getElem hpos] at hfirst
  rw [← String.toList_inj, strip, strip, String.toList_ofList, String.toList_ofList]
  change (((s.toList.dropWhile isBlank).rdropWhile isBlank).dropWhile isBlank).rdropWhile isBlank =
    (s.toList.dropWhile isBlank).rdropWhile isBlank
  rw [hstart, List.rdropWhile_idempotent]

/-- A beginning that is not blank protects the blanks after it. -/
theorem strip_append {c : Char} {start : List Char} {s : String} (hc : isBlank c = false)
    (hs : strip s = s) (hne : s ≠ "") :
    strip (String.ofList (c :: start) ++ s) = String.ofList (c :: start) ++ s := by
  have hlast := List.rdropWhile_eq_self_iff.mp (ends_of_strip_eq hs).2
  have hnil : s.toList ≠ [] := by simpa using hne
  have hend : (c :: (start ++ s.toList)).rdropWhile isBlank = c :: (start ++ s.toList) := by
    rw [List.rdropWhile_eq_self_iff]
    intro hcons
    rw [List.getLast_cons (by simp [hnil]), List.getLast_append_of_ne_nil _ hnil]
    exact hlast hnil
  have hwhole : dropEndWhile isBlank ((c :: (start ++ s.toList)).dropWhile isBlank) =
      c :: (start ++ s.toList) := by
    rw [List.dropWhile_cons_of_neg (by simp [hc])]
    exact hend
  simp [strip, hwhole, ← String.toList_inj]

end RecordLayout.Text
