import RecordLayout.TypeName

/-!
# Normal spellings

The normal spelling of a type name is written from its tokens, and reading it gives the same tokens
back: a blank stands before every word but the first, a star ends the word before it, and the words
themselves hold neither blanks nor stars.  So a normal spelling is its own normal spelling.

## Main definitions

* `TypeName.Token.IsProper` says what a token that was read looks like.

## Main results

* `TypeName.tokensFrom_spell`: proper tokens are read back from the normal spelling;
* `TypeName.normalize_normalize`: a normal spelling is its own normal spelling.
-/

namespace RecordLayout.TypeName

/-- A character of a word is neither a blank nor a star. -/
def IsWordChar (c : Char) : Prop := Text.isBlank c = false ∧ c ≠ '*'

instance : DecidablePred IsWordChar :=
  fun c => inferInstanceAs (Decidable (Text.isBlank c = false ∧ c ≠ '*'))

/-- A word is not empty, and its characters neither separate words nor are tokens of their own. -/
def Token.IsProper : Token → Prop
  | .star => True
  | .word w => w ≠ [] ∧ ∀ c ∈ w, IsWordChar c

/-! ## Reading -/

theorem isProper_of_mem_pendingWord {word : List Char} (h : ∀ c ∈ word, IsWordChar c) :
    ∀ t ∈ pendingWord word, t.IsProper := by
  unfold pendingWord
  split
  · exact nofun
  · rename_i hne
    intro t ht
    obtain rfl := List.mem_singleton.mp ht
    exact ⟨by simpa using hne, fun c hc => h c (List.mem_reverse.mp hc)⟩

/-- What is read are proper tokens. -/
theorem isProper_of_mem_tokensFrom {word cs : List Char} (h : ∀ c ∈ word, IsWordChar c) :
    ∀ t ∈ tokensFrom word cs, t.IsProper := by
  induction cs generalizing word with
  | nil => exact isProper_of_mem_pendingWord h
  | cons c cs ih =>
    have hpending := isProper_of_mem_pendingWord h
    have hrest : ∀ t ∈ tokensFrom [] cs, t.IsProper := ih (List.forall_mem_nil _)
    unfold tokensFrom
    split
    · exact List.forall_mem_append.mpr ⟨hpending, hrest⟩
    · rename_i hblank
      split
      · exact List.forall_mem_append.mpr ⟨hpending, List.forall_mem_cons.mpr ⟨trivial, hrest⟩⟩
      · rename_i hstar
        exact ih (List.forall_mem_cons.mpr ⟨⟨Bool.eq_false_iff.mpr hblank, hstar⟩, h⟩)

theorem isProper_of_mem_tokens {spelling : String} : ∀ t ∈ tokens spelling, t.IsProper :=
  fun t ht => isProper_of_mem_tokensFrom (List.forall_mem_nil _) t (List.mem_filter.mp ht).1

/-- The characters of a word are collected one after another. -/
theorem tokensFrom_append {word w : List Char} (h : ∀ c ∈ w, IsWordChar c) (cs : List Char) :
    tokensFrom word (w ++ cs) = tokensFrom (w.reverse ++ word) cs := by
  induction w generalizing word with
  | nil => rfl
  | cons c w ih =>
    rw [List.forall_mem_cons] at h
    rw [List.cons_append, tokensFrom, if_neg (Bool.eq_false_iff.mp h.1.1), if_neg h.1.2, ih h.2,
      List.reverse_cons, List.append_assoc, List.singleton_append]

theorem pendingWord_reverse {w : List Char} (h : w ≠ []) : pendingWord w.reverse = [.word w] := by
  simp [pendingWord, h]

theorem tokensFrom_word {w : List Char} (hne : w ≠ []) (hchars : ∀ c ∈ w, IsWordChar c) :
    tokensFrom [] w = [.word w] := by
  have hread : tokensFrom [] (w ++ []) = tokensFrom (w.reverse ++ []) [] :=
    tokensFrom_append hchars []
  rwa [List.append_nil, List.append_nil, tokensFrom, pendingWord_reverse hne] at hread

/-- A word that a blank ends is read before the rest. -/
theorem tokensFrom_word_append {w : List Char} (hne : w ≠ []) (hchars : ∀ c ∈ w, IsWordChar c)
    {c : Char} (hc : Text.isBlank c = true) (cs : List Char) :
    tokensFrom [] (w ++ c :: cs) = .word w :: tokensFrom [] cs := by
  rw [tokensFrom_append hchars, tokensFrom, if_pos hc, List.append_nil, pendingWord_reverse hne,
    List.singleton_append]

/-! ## Writing and reading back -/

/-- Tokens that are written behind a word are read back behind it. -/
theorem tokensFrom_spellRest {ts : List Token} (h : ∀ t ∈ ts, t.IsProper) (word : List Char) :
    tokensFrom word (spellRest ts) = pendingWord word ++ ts := by
  induction ts generalizing word with
  | nil => exact (List.append_nil _).symm
  | cons t ts ih =>
    rw [List.forall_mem_cons] at h
    cases t with
    | star =>
      have hblank : ¬ Text.isBlank '*' = true := by decide
      rw [spellRest, tokensFrom, if_neg hblank, if_pos rfl, ih h.2]
      rfl
    | word w =>
      obtain ⟨⟨hne, hchars⟩, hts⟩ := h
      have hblank : Text.isBlank ' ' = true := by decide
      rw [spellRest, List.cons_append, tokensFrom, if_pos hblank, tokensFrom_append hchars,
        List.append_nil, ih hts, pendingWord_reverse hne]
      rfl

/-- **Proper tokens are read back** from the normal spelling. -/
theorem tokensFrom_spell {ts : List Token} (h : ∀ t ∈ ts, t.IsProper) :
    tokensFrom [] (spell ts) = ts := by
  cases ts with
  | nil => rfl
  | cons t ts =>
    cases t with
    | star => exact tokensFrom_spellRest h []
    | word w =>
      rw [List.forall_mem_cons] at h
      obtain ⟨⟨hne, hchars⟩, hts⟩ := h
      rw [spell, tokensFrom_append hchars, List.append_nil, tokensFrom_spellRest hts,
        pendingWord_reverse hne]
      rfl

/-- The normal spelling has the same tokens. -/
theorem tokens_normalize (spelling : String) : tokens (normalize spelling) = tokens spelling := by
  rw [tokens, normalize, String.toList_ofList, tokensFrom_spell isProper_of_mem_tokens, tokens,
    List.filter_filter]
  simp only [Bool.and_self]

/-- **A normal spelling is its own normal spelling.** -/
@[simp] theorem normalize_normalize (spelling : String) :
    normalize (normalize spelling) = normalize spelling := by
  rw [normalize, tokens_normalize, ← normalize]

end RecordLayout.TypeName
