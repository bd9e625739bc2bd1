import Chiptune.Command.Basic
import Chiptune.Proofs.BlankText
import Mathlib

/-!
# The grammar of typed commands

A line is a command by its words alone, and `SpelledBy` lists the words that are
one: a letter or sign that stands by itself, or a letter and a numeral. A numeral
may have a plus sign and any zeros before its other digits, and its value is
exact, so a track or a volume that is too large is refused and never wraps.
-/
namespace Chiptune

namespace Text

/-! ### Numerals -/

/-- Decimal digits, at least one of them, and the number that they make up. -/
def IsDigits (digits : List Char) (n : ℕ) : Prop :=
  digits ≠ [] ∧ (∀ c ∈ digits, c.isDigit = true) ∧ n = Nat.ofDigitChars 10 digits 0

/-- Digits, which a plus sign may stand before. -/
def IsNumeral (text : List Char) (n : ℕ) : Prop :=
  IsDigits text n ∨ ∃ digits, text = '+' :: digits ∧ IsDigits digits n

theorem digitsValue_eq (digits : List Char) : digitsValue 0 digits = Nat.ofDigitChars 10 digits 0 :=
  Nat.ofDigitChars_eq_foldl.symm

theorem unsigned?_eq_some_iff {text : List Char} {n : ℕ} :
    unsigned? text = some n ↔ IsDigits text n := by
  have hall : text.all isDigit = true ↔ ∀ c ∈ text, c.isDigit = true := List.all_eq_true
  unfold unsigned? IsDigits
  by_cases hnil : text = []
  · simp [hnil]
  rw [if_neg (by simpa using hnil), digitsValue_eq]
  by_cases hdigits : ∀ c ∈ text, c.isDigit = true
  · rw [if_pos (hall.mpr hdigits), Option.some_inj]
    exact ⟨fun h => ⟨hnil, hdigits, h.symm⟩, fun h => h.2.2.symm⟩
  · rw [if_neg (mt hall.mp hdigits)]
    exact ⟨fun h => by contradiction, fun h => absurd h.2.1 hdigits⟩

/-- A sign is no digit. -/
theorem not_isDigits_plus (digits : List Char) (n : ℕ) : ¬ IsDigits ('+' :: digits) n :=
  fun h => absurd (h.2.1 '+' List.mem_cons_self) (by decide)

theorem numeral?_eq_some_iff {text : List Char} {n : ℕ} :
    numeral? text = some n ↔ IsNumeral text n := by
  unfold numeral? IsNumeral
  split
  · rename_i digits
    rw [unsigned?_eq_some_iff]
    constructor
    · exact fun h => .inr ⟨digits, rfl, h⟩
    · rintro (h | ⟨_, h, hdigits⟩)
      · exact absurd h (not_isDigits_plus digits n)
      · rwa [(List.cons.inj h).2]
  · rename_i hplus
    rw [unsigned?_eq_some_iff]
    constructor
    · exact .inl
    · rintro (h | ⟨digits, h, -⟩)
      · exact h
      · exact absurd h (hplus digits)

theorem boundedNumeral?_eq_some_iff {bound : ℕ} {text : List Char} {n : ℕ} :
    boundedNumeral? bound text = some n ↔ IsNumeral text n ∧ n < bound := by
  rw [boundedNumeral?, Option.filter_eq_some_iff, numeral?_eq_some_iff, decide_eq_true_iff]

theorem isDigits_toDigits (n : ℕ) : IsDigits (Nat.toDigits 10 n) n :=
  ⟨Nat.toDigits_ne_nil, fun _ => Nat.isDigit_of_mem_toDigits (by decide) (by decide),
    Nat.ofDigitChars_ten_toDigits.symm⟩

theorem not_isBlank_of_isDigit {c : Char} (h : c.isDigit = true) : ¬ IsBlank c := by
  have hrange : 48 ≤ c.toNat ∧ c.toNat ≤ 57 := by
    simpa [Char.isDigit, UInt32.le_iff_toNat_le] using h
  simp only [IsBlank, whiteSpace, Finset.mem_insert, Finset.mem_singleton]
  omega

end Text

namespace Command

open Text (HasWords IsBlank IsDigits IsNumeral bitBound boundedNumeral? boundedNumeral?_eq_some_iff
  hasWords_iff isDigits_toDigits not_isBlank_of_isDigit words)

/-- The words that a command is made of. -/
inductive SpelledBy : Command → List (List Char) → Prop where
  /-- The number of the channel, counted from one. -/
  | toggleMute (channel : Fin 4) :
    SpelledBy (.toggleMute channel) [[Nat.digitChar (channel.val + 1)]]
  | selectTrack {number : List Char} {track : ℕ} (hnumber : IsNumeral number track)
    (hlt : track < 2 ^ 64) : SpelledBy (.selectTrack track) [['t'], number]
  /-- More than a hundred percent, if one byte can hold it, stands for a hundred. -/
  | volume {number : List Char} {k : ℕ} {percent : Percent} (hnumber : IsNumeral number k)
    (hle : k ≤ 255) (hpercent : percent.val = min k 100) :
    SpelledBy (.volume percent) [['v'], number]
  | nextTrack : SpelledBy .nextTrack [['n']]
  | previousTrack : SpelledBy .previousTrack [['b']]
  | togglePause : SpelledBy .togglePause [['p']]
  | faster : SpelledBy .faster [['+']]
  | slower : SpelledBy .slower [['-']]
  | normalSpeed : SpelledBy .normalSpeed [['=']]
  | restart : SpelledBy .restart [['r']]
  | quit : SpelledBy .quit [['q']]

theorem percent?_eq_some_iff {text : List Char} {percent : Percent} :
    percent? text = some percent ↔ ∃ k, IsNumeral text k ∧ k ≤ 255 ∧ percent.val = min k 100 := by
  rw [percent?, Option.map_eq_some_iff]
  constructor
  · rintro ⟨k, h, rfl⟩
    obtain ⟨hnumber, hlt⟩ := boundedNumeral?_eq_some_iff.mp h
    exact ⟨k, hnumber, Nat.le_of_lt_succ hlt, rfl⟩
  · rintro ⟨k, hnumber, hle, hpercent⟩
    exact ⟨k, boundedNumeral?_eq_some_iff.mpr ⟨hnumber, Nat.lt_succ_of_le hle⟩,
      Fin.ext hpercent.symm⟩

theorem spelledBy_of_ofWords? {list : List (List Char)} {command : Command}
    (h : ofWords? list = some command) : SpelledBy command list := by
  unfold ofWords? at h
  split at h
  case h_1 | h_2 | h_3 | h_4 =>
    cases h
    exact .toggleMute _
  case h_5 number =>
    obtain ⟨track, htrack, rfl⟩ := Option.map_eq_some_iff.mp h
    obtain ⟨hnumber, hlt⟩ := boundedNumeral?_eq_some_iff.mp htrack
    exact .selectTrack hnumber hlt
  case h_9 number =>
    obtain ⟨percent, hpercent, rfl⟩ := Option.map_eq_some_iff.mp h
    obtain ⟨k, hnumber, hle, hcut⟩ := percent?_eq_some_iff.mp hpercent
    exact .volume hnumber hle hcut
  case h_15 => contradiction
  all_goals
    cases h
    constructor

theorem SpelledBy.ofWords?_eq {list : List (List Char)} {command : Command}
    (h : SpelledBy command list) : ofWords? list = some command := by
  cases h with
  | toggleMute channel => fin_cases channel <;> rfl
  | selectTrack hnumber hlt =>
    exact Option.map_eq_some_iff.mpr ⟨_, boundedNumeral?_eq_some_iff.mpr ⟨hnumber, hlt⟩, rfl⟩
  | volume hnumber hle hpercent =>
    exact Option.map_eq_some_iff.mpr ⟨_, percent?_eq_some_iff.mpr ⟨_, hnumber, hle, hpercent⟩, rfl⟩
  | nextTrack | previousTrack | togglePause | faster | slower | normalSpeed | restart | quit => rfl

theorem parse?_eq_some_iff {line : String} {command : Command} :
    parse? line = some command ↔ SpelledBy command (words line.toList) :=
  ⟨spelledBy_of_ofWords?, SpelledBy.ofWords?_eq⟩

/-! ### Canonical lines -/

/-- The words of the canonical line of a command. -/
def lineWords : Command → List (List Char)
  | .toggleMute channel => [[Nat.digitChar (channel.val + 1)]]
  | .selectTrack track => [['t'], Nat.toDigits 10 track]
  | .nextTrack => [['n']]
  | .previousTrack => [['b']]
  | .togglePause => [['p']]
  | .volume percent => [['v'], Nat.toDigits 10 percent.val]
  | .faster => [['+']]
  | .slower => [['-']]
  | .normalSpeed => [['=']]
  | .restart => [['r']]
  | .quit => [['q']]

/-- A word alone on its line. -/
theorem hasWords_alone {word : List Char} (hne : word ≠ []) (hword : ∀ c ∈ word, ¬ IsBlank c) :
    HasWords word [word] := by
  simpa using HasWords.word hne hword (by simp) .nil

theorem hasWords_letter {text : String} {c : Char} (htext : text.toList = [c]) (h : ¬ IsBlank c) :
    HasWords text.toList [[c]] := by
  rw [htext]
  exact hasWords_alone (by simp) (by simpa using h)

/-- A letter, a space and a number. -/
theorem hasWords_operand {text : String} {c : Char} (htext : text.toList = [c, ' '])
    (h : ¬ IsBlank c) (n : ℕ) :
    HasWords (text ++ toString n).toList [[c], Nat.toDigits 10 n] := by
  obtain ⟨hne, hdigits, -⟩ := isDigits_toDigits n
  rw [String.toList_append, htext, Nat.toString_eq_ofList_toDigits, String.toList_ofList]
  have hspace : IsBlank ' ' := by decide
  have hnumber : HasWords (Nat.toDigits 10 n) [Nat.toDigits 10 n] :=
    hasWords_alone hne fun d hd => not_isBlank_of_isDigit (hdigits d hd)
  have hletter : ∀ d ∈ [c], ¬ IsBlank d := by simpa using h
  exact .word (List.cons_ne_nil c []) hletter (by simpa using hspace) (.blank hspace hnumber)

theorem hasWords_line (command : Command) : HasWords command.line.toList command.lineWords := by
  cases command with
  | toggleMute channel =>
    fin_cases channel
    all_goals exact hasWords_letter rfl (by decide)
  | selectTrack track => exact hasWords_operand (c := 't') rfl (by decide) track
  | volume percent => exact hasWords_operand (c := 'v') rfl (by decide) percent.val
  | nextTrack | previousTrack | togglePause | faster | slower | normalSpeed | restart | quit =>
    exact hasWords_letter rfl (by decide)

/-- What some words spell is spelled by its canonical words too. -/
theorem SpelledBy.lineWords {list : List (List Char)} {command : Command}
    (h : SpelledBy command list) : SpelledBy command command.lineWords := by
  cases h with
  | toggleMute channel => exact .toggleMute channel
  | selectTrack _ hlt => exact .selectTrack (.inl (isDigits_toDigits _)) hlt
  | @volume _ _ percent _ _ _ =>
    have hle := percent.isLt
    exact .volume (.inl (isDigits_toDigits _)) (by omega) (by omega)
  | nextTrack | previousTrack | togglePause | faster | slower | normalSpeed | restart | quit =>
    constructor

/-- A line is a command exactly if its words spell one, and blanks only tell the words apart. So
every command that a line can be has a canonical line, and it is recognized by the words of that
line with any blanks around and between them. -/
theorem accepts_exactly_grammar (line : String) :
    ∃ list, (∀ other, HasWords line.toList other ↔ other = list) ∧
      (∀ command, parse? line = some command ↔ SpelledBy command list) ∧
      (∀ text : String, HasWords text.toList list → parse? text = parse? line) ∧
      ∀ command, parse? line = some command → ∃ canonical,
        HasWords command.line.toList canonical ∧
          ∀ text : String, HasWords text.toList canonical → parse? text = some command := by
  refine ⟨words line.toList, fun _ => hasWords_iff, fun _ => parse?_eq_some_iff, ?_, ?_⟩
  · intro text htext
    rw [parse?, parse?, hasWords_iff.mp htext]
  · intro command h
    refine ⟨command.lineWords, command.hasWords_line, fun text htext => ?_⟩
    rw [parse?_eq_some_iff, ← hasWords_iff.mp htext]
    exact (parse?_eq_some_iff.mp h).lineWords

/-- A volume with a sign and leading zeros, between blanks of three kinds. -/
theorem accepts_exactly_grammar_signedVolume :
    ∃ list, HasWords "\tv\u3000+0200\u0085".toList list ∧
      SpelledBy (.volume (.cut 200)) list ∧
      parse? "\tv\u3000+0200\u0085" = some (.volume (.cut 200)) ∧
      parse? "  v  100 " = some (.volume (.cut 200)) := by
  obtain ⟨list, hwords, hspelled, -, hcanonical⟩ :=
    accepts_exactly_grammar "\tv\u3000+0200\u0085"
  have hparse : parse? "\tv\u3000+0200\u0085" = some (.volume (.cut 200)) := by decide +kernel
  obtain ⟨canonical, hline, htexts⟩ := hcanonical _ hparse
  refine ⟨list, (hwords list).mpr rfl, (hspelled _).mp hparse, hparse, htexts _ ?_⟩
  rw [hasWords_iff.mp hline]
  exact hasWords_iff.mpr (by decide +kernel)

end Command
end Chiptune
