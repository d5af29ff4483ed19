import Mathlib.Data.List.SplitBy
import RecordLayout.Profile.BuiltIn
import RecordLayout.Proofs.TypeName.Normal

/-!
# Normal spellings as a canonical form

What counts in a spelling are its parts: the longest runs of characters that are neither blanks nor
stars, and each star on its own, without the qualifiers.  Two spellings have the same normal
spelling exactly when they have the same parts.

The parts can be cut out of a spelling in several ways: by reading it once from left to right, by
putting blanks around the stars and splitting at blanks, or as the longest runs that the statement
speaks of.  Each of these goes on in the same way after a blank and after a star, and leaves a word
as it is, which settles what it gives (`Cuts.eq_map_text`).

## Main definitions

* `TypeName.parts` are the parts of a spelling;
* `TypeName.Cuts` says that a function cuts characters into runs;
* `TypeName.closeUp` takes away the blank right before a star.

## Main results

* `TypeName.words_eq_runs`: blanks around the stars, and a split at blanks, give the longest runs;
* `TypeName.normalize_eq_closeUp`: the normal spelling joins the parts by blanks and closes up the
  stars;
* `TypeName.normalize_eq_replacements`: it is what these replacements of text give;
* `TypeName.normalize_canonical`: the normal spelling tells spellings apart by their parts, is its
  own normal spelling, and the parts settle the size of a primitive.
-/

namespace RecordLayout.TypeName

/-- Whether two neighbours stand in the same word. -/
def sameWord (a b : Char) : Bool := decide (IsWordChar a) && decide (IsWordChar b)

/-- The longest runs of characters of words, and each star on its own. -/
def runs (cs : List Char) : List (List Char) :=
  (cs.splitBy sameWord).filter fun run => !run.all Text.isBlank

/-- The runs of a spelling that are not qualifiers. -/
def parts (spelling : String) : List (List Char) :=
  (runs spelling.toList).filter fun run => !qualifiers.contains (String.ofList run)

/-- The characters with a blank on either side of each star. -/
def spaceStars (cs : List Char) : List Char :=
  cs.flatMap fun c => if c = '*' then [' ', '*', ' '] else [c]

/-- What stands between the blanks once the stars stand apart. -/
def words (cs : List Char) : List (List Char) :=
  ((spaceStars cs).splitOnP Text.isBlank).filter fun w => !w.isEmpty

/-- The characters without the blank right before a star; any further blanks stay. -/
def closeUp : List Char → List Char
  | ' ' :: '*' :: cs => '*' :: closeUp cs
  | c :: cs => c :: closeUp cs
  | [] => []

/-- The characters of a token. -/
def Token.text : Token → List Char
  | .star => ['*']
  | .word w => w

/-! ## Cutting characters into runs -/

/-- A blank or a star ends the run before it, and a word is a run. -/
structure Cuts (cut : List Char → List (List Char)) : Prop where
  nil : cut [] = []
  word {w : List Char} (hne : w ≠ []) (hchars : ∀ c ∈ w, IsWordChar c) : cut w = [w]
  blank {c : Char} (hc : Text.isBlank c = true) (before after : List Char) :
    cut (before ++ c :: after) = cut before ++ cut after
  star (before after : List Char) :
    cut (before ++ '*' :: after) = cut before ++ ['*'] :: cut after

theorem Cuts.eq_map_pendingWord {cut : List Char → List (List Char)} (h : Cuts cut)
    {word : List Char} (hword : ∀ c ∈ word, IsWordChar c) :
    cut word.reverse = (pendingWord word).map Token.text := by
  cases word with
  | nil => exact h.nil
  | cons c word =>
    have hne : (c :: word).reverse ≠ [] := by simp
    exact h.word hne fun d hd => hword d (List.mem_reverse.mp hd)

/-- **There is one way to cut**: what a cutting gives are the texts of the tokens that are read. -/
theorem Cuts.eq_map_text {cut : List Char → List (List Char)} (h : Cuts cut) {word : List Char}
    (hword : ∀ c ∈ word, IsWordChar c) (cs : List Char) :
    cut (word.reverse ++ cs) = (tokensFrom word cs).map Token.text := by
  -- Only the word before the next blank or star is open: what comes before it was cut off.
  induction cs generalizing word with
  | nil => rw [List.append_nil, tokensFrom, h.eq_map_pendingWord hword]
  | cons c cs ih =>
    have hpending := h.eq_map_pendingWord hword
    have hrest : cut cs = (tokensFrom [] cs).map Token.text := ih (List.forall_mem_nil _)
    unfold tokensFrom
    split
    · rename_i hblank
      rw [h.blank hblank, hpending, hrest, List.map_append]
    · rename_i hblank
      split
      · rename_i hstar
        rw [hstar, h.star, hpending, hrest, List.map_append, List.map_cons, Token.text]
      · rename_i hstar
        have hc : IsWordChar c := ⟨Bool.eq_false_iff.mpr hblank, hstar⟩
        rw [← ih (List.forall_mem_cons.mpr ⟨hc, hword⟩), List.reverse_cons, List.append_assoc,
          List.singleton_append]

/-! ## The longest runs -/

theorem not_isWordChar_of_isBlank {c : Char} (h : Text.isBlank c = true) : ¬ IsWordChar c :=
  fun hc => Bool.false_ne_true (hc.1.symm.trans h)

theorem not_isWordChar_star : ¬ IsWordChar '*' := fun hc => hc.2 rfl

/-- A character that belongs to no word is a run of its own. -/
theorem splitBy_sameWord_append {c : Char} (h : ¬ IsWordChar c) (before after : List Char) :
    (before ++ c :: after).splitBy sameWord =
      before.splitBy sameWord ++ [c] :: after.splitBy sameWord := by
  have hbefore : ∀ d ∈ before.getLast?, sameWord d c = false := fun d _ => by simp [sameWord, h]
  have hafter : ∀ d ∈ [c].getLast?, ∀ e ∈ after.head?, sameWord d e = false := by
    rintro d ⟨⟩ e -
    simp [sameWord, h]
  calc (before ++ c :: after).splitBy sameWord
      = before.splitBy sameWord ++ ([c] ++ after).splitBy sameWord :=
        List.splitBy_append_cons after hbefore
    _ = before.splitBy sameWord ++ ([c].splitBy sameWord ++ after.splitBy sameWord) := by
        rw [List.splitBy_append hafter]
    _ = before.splitBy sameWord ++ [c] :: after.splitBy sameWord := rfl

theorem splitBy_sameWord_of_word {w : List Char} (hne : w ≠ []) (h : ∀ c ∈ w, IsWordChar c) :
    w.splitBy sameWord = [w] := by
  refine List.splitBy_of_isChain hne (List.Pairwise.isChain ?_)
  refine List.pairwise_of_forall_mem_list fun a ha b hb => ?_
  simp [sameWord, h a ha, h b hb]

theorem cuts_runs : Cuts runs where
  nil := rfl
  word {w} hne hchars := by
    obtain ⟨c, hc⟩ := List.exists_mem_of_ne_nil w hne
    have hvisible : ∃ c ∈ w, Text.isBlank c = false := ⟨c, hc, (hchars c hc).1⟩
    simpa [runs, splitBy_sameWord_of_word hne hchars] using hvisible
  blank hc before after := by
    simp [runs, splitBy_sameWord_append (not_isWordChar_of_isBlank hc), hc]
  star before after := by
    have hstar : Text.isBlank '*' = false := by decide
    simp [runs, splitBy_sameWord_append not_isWordChar_star, hstar]

/-! ## Splitting at blanks -/

theorem spaceStars_append (as bs : List Char) :
    spaceStars (as ++ bs) = spaceStars as ++ spaceStars bs :=
  List.flatMap_append

theorem spaceStars_cons_of_ne {c : Char} (h : c ≠ '*') (cs : List Char) :
    spaceStars (c :: cs) = c :: spaceStars cs := by
  simp [spaceStars, h]

theorem spaceStars_of_word {w : List Char} (h : ∀ c ∈ w, IsWordChar c) : spaceStars w = w := by
  induction w with
  | nil => rfl
  | cons c w ih =>
    rw [List.forall_mem_cons] at h
    rw [spaceStars_cons_of_ne h.1.2, ih h.2]

theorem cuts_words : Cuts words where
  nil := rfl
  word hne hchars := by
    rw [words, spaceStars_of_word hchars, List.splitOnP_eq_singleton fun c hc => (hchars c hc).1]
    simp [hne]
  blank {c} hc before after := by
    have hne : c ≠ '*' := by rintro rfl; exact absurd hc (by decide)
    rw [words, spaceStars_append, spaceStars_cons_of_ne hne, List.splitOnP_append_cons _ _ hc,
      List.filter_append, words, words]
  star before after := by
    have hblank : Text.isBlank ' ' = true := by decide
    have hstar : ['*'].splitOnP Text.isBlank = [['*']] := by decide
    have hspaced : spaceStars (before ++ '*' :: after) =
        spaceStars before ++ ' ' :: (['*'] ++ ' ' :: spaceStars after) := spaceStars_append ..
    rw [words, hspaced, List.splitOnP_append_cons _ _ hblank, List.splitOnP_append_cons _ _ hblank,
      hstar, List.filter_append, List.filter_append, words, words]
    rfl

/-- **Blanks around the stars and a split at blanks** give the longest runs. -/
theorem words_eq_runs (cs : List Char) : words cs = runs cs :=
  (cuts_words.eq_map_text (List.forall_mem_nil _) cs).trans
    (cuts_runs.eq_map_text (List.forall_mem_nil _) cs).symm

/-! ## The parts are the texts of the tokens -/

theorem contains_qualifiers_text (t : Token) :
    qualifiers.contains (String.ofList t.text) = t.isQualifier := by
  cases t with
  | star => decide
  | word w => rfl

theorem parts_eq_map_text (spelling : String) : parts spelling = (tokens spelling).map Token.text := by
  have hruns : runs spelling.toList = (tokensFrom [] spelling.toList).map Token.text :=
    cuts_runs.eq_map_text (List.forall_mem_nil _) spelling.toList
  rw [parts, hruns, List.filter_map, tokens]
  simp only [Function.comp_def, contains_qualifiers_text]

/-! ## Joining the parts -/

theorem closeUp_cons_of_ne {c : Char} (h : c ≠ ' ') (cs : List Char) :
    closeUp (c :: cs) = c :: closeUp cs := by
  rw [closeUp]
  exact fun _ hc _ => h hc

theorem closeUp_append_of_word {w : List Char} (h : ∀ c ∈ w, IsWordChar c) (cs : List Char) :
    closeUp (w ++ cs) = w ++ closeUp cs := by
  induction w with
  | nil => rfl
  | cons c w ih =>
    rw [List.forall_mem_cons] at h
    have hne : c ≠ ' ' := by rintro rfl; exact not_isWordChar_of_isBlank (by decide) h.1
    rw [List.cons_append, closeUp_cons_of_ne hne, ih h.2, List.cons_append]

/-- A blank before a word stays. -/
theorem closeUp_blank_append {w : List Char} (hne : w ≠ []) (h : ∀ c ∈ w, IsWordChar c)
    (cs : List Char) : closeUp (' ' :: (w ++ cs)) = ' ' :: w ++ closeUp cs := by
  obtain ⟨c, w, rfl⟩ := List.exists_cons_of_ne_nil hne
  have hc : c ≠ '*' := (h c List.mem_cons_self).2
  have hstep : closeUp (' ' :: (c :: w ++ cs)) = ' ' :: closeUp (c :: w ++ cs) := by
    rw [closeUp]
    exact fun _ _ heq => hc (List.cons.inj heq).1
  rw [hstep, closeUp_append_of_word h]
  rfl

/-- Closing up the tokens after the first gives what the normal spelling has for them. -/
theorem closeUp_flatMap {ts : List Token} (h : ∀ t ∈ ts, t.IsProper) :
    closeUp (ts.flatMap fun t => ' ' :: t.text) = spellRest ts := by
  induction ts with
  | nil => rfl
  | cons t ts ih =>
    rw [List.forall_mem_cons] at h
    cases t with
    | star =>
      have hstep : closeUp (' ' :: '*' :: ts.flatMap fun t => ' ' :: t.text) =
          '*' :: closeUp (ts.flatMap fun t => ' ' :: t.text) := by rw [closeUp]
      rw [spellRest, ← ih h.2, ← hstep]
      rfl
    | word w =>
      rw [spellRest, ← ih h.2, ← closeUp_blank_append h.1.1 h.1.2]
      rfl

theorem intercalate_map_text (t : Token) (ts : List Token) :
    [' '].intercalate ((t :: ts).map Token.text) =
      t.text ++ ts.flatMap fun t => ' ' :: t.text := by
  induction ts generalizing t with
  | nil => simp
  | cons u ts ih =>
    rw [List.map_cons, List.map_cons, List.intercalate_cons_cons, ← List.map_cons, ih,
      List.flatMap_cons, List.append_assoc, List.singleton_append, List.cons_append]

/-- Proper tokens that are joined by blanks and closed up are in the normal spelling. -/
theorem closeUp_intercalate {ts : List Token} (h : ∀ t ∈ ts, t.IsProper) :
    closeUp ([' '].intercalate (ts.map Token.text)) = spell ts := by
  cases ts with
  | nil => rfl
  | cons t ts =>
    rw [List.forall_mem_cons] at h
    rw [intercalate_map_text]
    cases t with
    | star =>
      rw [Token.text, List.singleton_append, closeUp_cons_of_ne (by decide), closeUp_flatMap h.2,
        spell]
    | word w => rw [Token.text, closeUp_append_of_word h.1.2, closeUp_flatMap h.2, spell]

/-- **The normal spelling joins the parts** by blanks and closes up the stars. -/
theorem normalize_eq_closeUp (spelling : String) :
    normalize spelling = String.ofList (closeUp ([' '].intercalate (parts spelling))) := by
  rw [parts_eq_map_text, closeUp_intercalate isProper_of_mem_tokens, normalize]

-- A star at the start has no blank before it, and the word behind it keeps its own.
example : closeUp ([' '].intercalate (parts "* const char\t* restrict*")) = "* char**".toList := by
  decide

/-- **The normal spelling by replacements**: blanks around the stars, a split at blanks without the
qualifiers, a join by blanks, and no blank before a star. -/
theorem normalize_eq_replacements (spelling : String) :
    normalize spelling = String.ofList (closeUp ([' '].intercalate
      ((words spelling.toList).filter fun w => !qualifiers.contains (String.ofList w)))) := by
  rw [words_eq_runs, ← parts, normalize_eq_closeUp]

/-! ## The canonical form -/

/-- Reading the normal spelling gives the parts back. -/
theorem parts_normalize (spelling : String) : parts (normalize spelling) = parts spelling := by
  rw [parts_eq_map_text, tokens_normalize, parts_eq_map_text]

theorem normalize_eq_iff {a b : String} : normalize a = normalize b ↔ parts a = parts b := by
  constructor
  · intro h
    rw [← parts_normalize a, h, parts_normalize b]
  · intro h
    rw [normalize_eq_closeUp, h, ← normalize_eq_closeUp]

/-- **The normal spelling is a canonical form.**  Two spellings have it in common exactly when they
have the same parts; it is its own normal spelling; and no profile tells spellings with the same
parts apart. -/
theorem normalize_canonical :
    (∀ a b : String, normalize a = normalize b ↔ parts a = parts b) ∧
      (∀ a : String, normalize (normalize a) = normalize a) ∧
      ∀ (p : Profile) (a b : String), parts a = parts b → p.sizeOf? a = p.sizeOf? b := by
  refine ⟨fun _ _ => normalize_eq_iff, normalize_normalize, fun p a b h => ?_⟩
  rw [Profile.sizeOf?, Profile.sizeOf?, normalize_eq_iff.mpr h]

theorem normalize_canonical_unsigned :
    parts "unsigned\tconst  int" = parts "unsigned int" ∧
      Profile.lp64.sizeOf? "unsigned\tconst  int" = Profile.lp64.sizeOf? "unsigned int" := by
  have hparts : parts "unsigned\tconst  int" = parts "unsigned int" := by decide
  exact ⟨hparts, normalize_canonical.2.2 Profile.lp64 _ _ hparts⟩

end RecordLayout.TypeName
