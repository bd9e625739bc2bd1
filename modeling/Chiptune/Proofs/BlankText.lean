import Chiptune.Text.Blank
import Mathlib

/-!
# Blanks, words and trimmed texts

The blanks are 25 characters. `HasWords` and `Trims` say what the words of a
text and the text without the blanks around it are, without saying how either is
found: a word has no blank, no end and no neighbour that could make it longer,
and a trimmed text begins and ends with no blank. Both leave one answer.
-/
namespace Chiptune.Text

/-- The code points of the characters with the property `White_Space`. -/
def whiteSpace : Finset ℕ :=
  {0x09, 0x0A, 0x0B, 0x0C, 0x0D, 0x20, 0x85, 0xA0, 0x1680, 0x2000, 0x2001, 0x2002, 0x2003, 0x2004,
    0x2005, 0x2006, 0x2007, 0x2008, 0x2009, 0x200A, 0x2028, 0x2029, 0x202F, 0x205F, 0x3000}

/-- A character that belongs to no word. -/
def IsBlank (c : Char) : Prop := c.toNat ∈ whiteSpace

instance : DecidablePred IsBlank := fun c => inferInstanceAs (Decidable (c.toNat ∈ whiteSpace))

theorem isBlank_iff {c : Char} : isBlank c = true ↔ IsBlank c := by
  simp only [isBlank, blankRanges, IsBlank, whiteSpace, List.any_cons, List.any_nil, Bool.or_false,
    Bool.or_eq_true, Bool.and_eq_true, decide_eq_true_eq, Finset.mem_insert,
    Finset.mem_singleton]
  omega

theorem isBlank_eq_false_iff {c : Char} : isBlank c = false ↔ ¬ IsBlank c := by
  rw [← isBlank_iff, Bool.not_eq_true]

/-! ### Words -/

/-- The words of a text, in order: the maximal runs of characters that are not blank. -/
inductive HasWords : List Char → List (List Char) → Prop where
  | nil : HasWords [] []
  | blank {c : Char} {rest : List Char} {words : List (List Char)} (hblank : IsBlank c)
    (hrest : HasWords rest words) : HasWords (c :: rest) words
  | word {word rest : List Char} {words : List (List Char)} (hne : word ≠ [])
    (hword : ∀ c ∈ word, ¬ IsBlank c) (hend : ∀ c ∈ rest.head?, IsBlank c)
    (hrest : HasWords rest words) : HasWords (word ++ rest) (word :: words)

section

variable {c : Char} {word rest : List Char}

theorem wordsFrom_blank (hblank : IsBlank c) (hne : word ≠ []) :
    wordsFrom word (c :: rest) = word.reverse :: wordsFrom [] rest := by
  rw [wordsFrom, if_pos (isBlank_iff.mpr hblank), if_neg (by simpa using hne)]

theorem wordsFrom_nil_blank (hblank : IsBlank c) :
    wordsFrom [] (c :: rest) = wordsFrom [] rest := by
  rw [wordsFrom, if_pos (isBlank_iff.mpr hblank)]
  rfl

theorem wordsFrom_of_not_blank (hblank : ¬ IsBlank c) :
    wordsFrom word (c :: rest) = wordsFrom (c :: word) rest := by
  rw [wordsFrom, isBlank_eq_false_iff.mpr hblank]
  rfl

/-- A word that is being read goes on as long as there is no blank. -/
theorem wordsFrom_append {run : List Char} (hrun : ∀ c ∈ run, ¬ IsBlank c) :
    wordsFrom word (run ++ rest) = wordsFrom (run.reverse ++ word) rest := by
  induction run generalizing word with
  | nil => rfl
  | cons c run ih =>
    rw [List.cons_append, wordsFrom_of_not_blank (hrun c List.mem_cons_self),
      ih fun c hc => hrun c (List.mem_cons_of_mem _ hc), List.reverse_cons, List.append_assoc]
    rfl

/-- The word that is being read is the beginning of the first one. -/
theorem hasWords_wordsFrom (hword : ∀ c ∈ word, ¬ IsBlank c) :
    HasWords (word.reverse ++ rest) (wordsFrom word rest) := by
  induction rest generalizing word with
  | nil =>
    by_cases hne : word = []
    · subst hne
      exact .nil
    · rw [wordsFrom, if_neg (by simpa using hne)]
      exact .word (by simpa using hne) (by simpa using hword) (by simp) .nil
  | cons c rest ih =>
    by_cases hblank : IsBlank c
    · have hrest : HasWords (c :: rest) (wordsFrom [] rest) :=
        .blank hblank (ih (List.forall_mem_nil _))
      by_cases hne : word = []
      · subst hne
        rwa [wordsFrom_nil_blank hblank]
      · rw [wordsFrom_blank hblank hne]
        exact .word (by simpa using hne) (by simpa using hword) (by simpa using hblank) hrest
    · rw [wordsFrom_of_not_blank hblank]
      have hlonger : ∀ d ∈ c :: word, ¬ IsBlank d := by
        rintro d (_ | ⟨_, hd⟩)
        · exact hblank
        · exact hword d hd
      simpa using ih hlonger

end

theorem HasWords.words_eq {text : List Char} {list : List (List Char)} (h : HasWords text list) :
    words text = list := by
  induction h with
  | nil => rfl
  | blank hblank _ ih => rw [words, wordsFrom_nil_blank hblank, ← words, ih]
  | @word word rest list hne hword hend _ ih =>
    have hrev : word.reverse ++ [] ≠ [] := by simpa using hne
    rw [words, wordsFrom_append hword]
    cases rest with
    | nil =>
      rw [wordsFrom, if_neg (by simpa using hne), ← ih, List.append_nil, List.reverse_reverse]
      rfl
    | cons c rest =>
      have hblank : IsBlank c := hend c rfl
      rw [wordsFrom_blank hblank hrev, List.append_nil, List.reverse_reverse, ← ih, words,
        wordsFrom_nil_blank hblank]

theorem hasWords_iff {text : List Char} {list : List (List Char)} :
    HasWords text list ↔ list = words text :=
  ⟨fun h => h.words_eq.symm, fun h => h ▸ hasWords_wordsFrom (List.forall_mem_nil _)⟩

/-! ### Trimmed texts -/

/-- A text with no blank at its ends. -/
def IsTrimmed (text : List Char) : Prop :=
  (∀ c ∈ text.head?, ¬ IsBlank c) ∧ ∀ c ∈ text.getLast?, ¬ IsBlank c

/-- A text without the blanks around it. -/
def Trims (text trimmed : List Char) : Prop :=
  IsTrimmed trimmed ∧ ∃ before after, text = before ++ trimmed ++ after ∧
    (∀ c ∈ before, IsBlank c) ∧ ∀ c ∈ after, IsBlank c

/-- The blanks before a text are those up to its first other character. -/
theorem trimLeft_append {before text : List Char} (hbefore : ∀ c ∈ before, IsBlank c)
    (htext : ∀ c ∈ text.head?, ¬ IsBlank c) : trimLeft (before ++ text) = text := by
  have hall : ∀ c ∈ before, isBlank c = true := fun c hc => isBlank_iff.mpr (hbefore c hc)
  rw [trimLeft, List.dropWhile_append_of_pos hall]
  cases text with
  | nil => rfl
  | cons c text =>
    rw [List.dropWhile_cons_of_neg]
    simpa [isBlank_iff] using htext c rfl

theorem exists_trimLeft (text : List Char) :
    ∃ before, text = before ++ trimLeft text ∧ (∀ c ∈ before, IsBlank c) ∧
      ∀ c ∈ (trimLeft text).head?, ¬ IsBlank c := by
  refine ⟨text.takeWhile isBlank, (List.takeWhile_append_dropWhile ..).symm,
    fun c hc => isBlank_iff.mp (List.mem_takeWhile_imp hc), fun c hc => ?_⟩
  have hhead := List.head?_dropWhile_not isBlank text
  rw [← trimLeft, Option.mem_def.mp hc] at hhead
  exact isBlank_eq_false_iff.mp (by simpa using hhead)

theorem Trims.trim_eq {text trimmed : List Char} (h : Trims text trimmed) :
    trim text = trimmed := by
  obtain ⟨⟨hfirst, hlast⟩, before, after, rfl, hbefore, hafter⟩ := h
  by_cases hnil : trimmed = []
  · subst hnil
    have hall : ∀ c ∈ before ++ [] ++ after, IsBlank c := by
      intro c hc
      simp only [List.append_nil, List.mem_append] at hc
      exact hc.elim (hbefore c) (hafter c)
    have hleft : trimLeft (before ++ [] ++ after) = [] := by
      have hnone : ∀ c ∈ ([] : List Char).head?, ¬ IsBlank c := nofun
      simpa using trimLeft_append hall hnone
    rw [trim, hleft]
    rfl
  · have hleft : trimLeft (before ++ trimmed ++ after) = trimmed ++ after := by
      rw [List.append_assoc]
      apply trimLeft_append hbefore
      rwa [List.head?_append_of_ne_nil _ hnil]
    have hright : trimLeft (trimmed ++ after).reverse = trimmed.reverse := by
      rw [List.reverse_append]
      apply trimLeft_append (by simpa using hafter)
      rwa [List.head?_reverse]
    rw [trim, hleft, hright, List.reverse_reverse]

theorem trims_trim (text : List Char) : Trims text (trim text) := by
  obtain ⟨before, htext, hbefore, hfirst⟩ := exists_trimLeft text
  obtain ⟨after, hrest, hafter, hlast⟩ := exists_trimLeft (trimLeft text).reverse
  have hrest : trimLeft text = trim text ++ after.reverse := by
    rw [trim, ← List.reverse_append, ← hrest, List.reverse_reverse]
  refine ⟨⟨fun c hc => hfirst c ?_, fun c hc => hlast c ?_⟩, before, after.reverse, ?_, hbefore, ?_⟩
  · rw [hrest, List.head?_append, Option.mem_def.mp hc]
    rfl
  · rwa [trim, List.getLast?_reverse] at hc
  · rw [List.append_assoc, ← hrest, ← htext]
  · simpa using hafter

/-- Trimming takes away the blanks at the ends and nothing else. -/
theorem trim_eq_iff {text trimmed : List Char} : trim text = trimmed ↔ Trims text trimmed :=
  ⟨fun h => h ▸ trims_trim text, Trims.trim_eq⟩

/-- A text of blanks has no words. -/
theorem words_of_blank {text : List Char} (h : ∀ c ∈ text, IsBlank c) : words text = [] := by
  induction text with
  | nil => rfl
  | cons c text ih =>
    rw [words, wordsFrom_nil_blank (h c List.mem_cons_self)]
    exact ih fun d hd => h d (List.mem_cons_of_mem _ hd)

end Chiptune.Text
