import Chiptune.Command.Input
import Chiptune.Proofs.BlankText
import Mathlib

/-!
# The commands of a stream

Of a stream of bytes exactly the commands are passed on that its lines hold, in
their order: up to the first line that is not UTF-8, without the lines that are
blank or no command, and up to the first quit. `HasLines` says what the lines
are, and the rest is taking from lists and leaving out. A stream comes in
pieces, so the last part says what a piece adds to those before it.
-/
namespace Chiptune.Command

/-! ### Lines -/

/-- A line without the carriage return at its end. -/
def withoutReturn (line : List UInt8) : List UInt8 :=
  if line.getLast? = some 0x0D then line.dropLast else line

/-- The lines of a stream, in order. A line feed ends a line, and a carriage return before it is
left out. What follows the last line feed is a line if there is anything. -/
inductive HasLines : List UInt8 → List (List UInt8) → Prop where
  | nil : HasLines [] []
  | last {line : List UInt8} (hne : line ≠ []) (hline : 0x0A ∉ line) : HasLines line [line]
  | ended {line rest : List UInt8} {list : List (List UInt8)} (hline : 0x0A ∉ line)
    (hrest : HasLines rest list) : HasLines (line ++ 0x0A :: rest) (withoutReturn line :: list)

theorem dropReturn_eq (line : List UInt8) : dropReturn line = withoutReturn line := by
  obtain ⟨text, rfl⟩ : ∃ text, line = text.reverse := ⟨line.reverse, by simp⟩
  rw [dropReturn, withoutReturn, List.reverse_reverse, List.getLast?_reverse, List.dropLast_reverse]
  split
  · simp
  · rename_i hreturn
    rw [if_neg]
    intro hhead
    obtain ⟨rest, rfl⟩ := List.head?_eq_some_iff.mp hhead
    exact hreturn rest rfl

section

variable {line current rest : List UInt8}

theorem linesFrom_lineFeed :
    linesFrom current (0x0A :: rest) = withoutReturn current.reverse :: linesFrom [] rest := by
  rw [linesFrom, dropReturn_eq]
  rfl

/-- A line that is being read goes on as long as there is no line feed. -/
theorem linesFrom_append (hline : 0x0A ∉ line) :
    linesFrom current (line ++ rest) = linesFrom (line.reverse ++ current) rest := by
  induction line generalizing current with
  | nil => rfl
  | cons byte line ih =>
    obtain ⟨hbyte, hline⟩ := not_or.mp (mt List.mem_cons.mpr hline)
    have hfeed : ¬ (byte == 0x0A) = true := by simpa using Ne.symm hbyte
    rw [List.cons_append, linesFrom, if_neg hfeed, ih hline, List.reverse_cons, List.append_assoc]
    rfl

/-- The line that is being read is the beginning of the first one. -/
theorem hasLines_linesFrom (hcurrent : 0x0A ∉ current) :
    HasLines (current.reverse ++ rest) (linesFrom current rest) := by
  induction rest generalizing current with
  | nil =>
    rw [linesFrom, List.append_nil]
    by_cases hne : current = []
    · subst hne
      exact .nil
    · rw [if_neg (by simpa using hne)]
      exact .last (by simpa using hne) (by simpa using hcurrent)
  | cons byte rest ih =>
    by_cases hfeed : byte = 0x0A
    · subst hfeed
      rw [linesFrom_lineFeed]
      exact .ended (by simpa using hcurrent) (ih List.not_mem_nil)
    · have hlonger : 0x0A ∉ byte :: current := by
        simpa using ⟨Ne.symm hfeed, hcurrent⟩
      rw [linesFrom, if_neg (by simpa using hfeed)]
      simpa using ih hlonger

/-- A line feed cuts a stream for good. -/
theorem linesFrom_append_lineFeed (more : List UInt8) :
    linesFrom current (line ++ 0x0A :: more) =
      linesFrom current (line ++ [0x0A]) ++ lines more := by
  induction line generalizing current with
  | nil => rfl
  | cons byte line ih =>
    simp only [List.cons_append, linesFrom]
    split
    · rw [ih, List.cons_append]
    · exact ih

end

theorem HasLines.lines_eq {stream : List UInt8} {list : List (List UInt8)}
    (h : HasLines stream list) : lines stream = list := by
  induction h with
  | nil => rfl
  | @last line hne hline =>
    have hread : linesFrom [] (line ++ []) = linesFrom (line.reverse ++ []) [] :=
      linesFrom_append hline
    rw [List.append_nil, List.append_nil] at hread
    rw [lines, hread, linesFrom, if_neg (by simpa using hne), List.reverse_reverse]
  | ended hline _ ih =>
    rw [lines, linesFrom_append hline, linesFrom_lineFeed, List.append_nil, List.reverse_reverse,
      ← ih]
    rfl

theorem hasLines_iff {stream : List UInt8} {list : List (List UInt8)} :
    HasLines stream list ↔ list = lines stream :=
  ⟨fun h => h.lines_eq.symm, fun h => h ▸ hasLines_linesFrom List.not_mem_nil⟩

/-- A stream that ends with a line feed ends with a line. -/
theorem lines_append {stream : List UInt8} (h : stream.getLast? = some 0x0A) (more : List UInt8) :
    lines (stream ++ more) = lines stream ++ lines more := by
  obtain ⟨line, rfl⟩ := List.getLast?_eq_some_iff.mp h
  rw [List.append_assoc]
  exact linesFrom_append_lineFeed more

/-! ### Texts -/

/-- A text as it stands in a stream. -/
def encoded (text : String) : List UInt8 := text.toUTF8.data.toList

/-- The lines that are UTF-8. -/
def IsText (line : List UInt8) : Prop := ∃ text, encoded text = line

theorem decodeLine?_eq_some_iff {line : List UInt8} {text : String} :
    decodeLine? line = some text ↔ encoded text = line := by
  have hbytes : text.toByteArray = line.toByteArray ↔ encoded text = line := by
    constructor
    · intro h
      rw [encoded, String.toUTF8, h, List.toList_data_toByteArray]
    · rintro rfl
      exact ByteArray.ext (by
        rw [List.data_toByteArray, encoded, String.toUTF8, Array.toArray_toList])
  rw [← hbytes, decodeLine?, String.fromUTF8?]
  constructor
  · intro h
    split at h
    · rw [← Option.some.inj h]
      rfl
    · contradiction
  · intro h
    rw [dif_pos (h ▸ text.isValidUTF8), Option.some_inj, ← String.toByteArray_inj]
    exact h.symm

theorem decodeLine?_encoded (text : String) : decodeLine? (encoded text) = some text :=
  decodeLine?_eq_some_iff.mpr rfl

theorem decodeLine?_eq_none_iff {line : List UInt8} : decodeLine? line = none ↔ ¬ IsText line := by
  rw [Option.eq_none_iff_forall_ne_some]
  exact ⟨fun h ⟨text, htext⟩ => h text (decodeLine?_eq_some_iff.mpr htext),
    fun h text htext => h ⟨text, decodeLine?_eq_some_iff.mp htext⟩⟩

/-- Lines are read as texts up to the first that is none. -/
theorem exists_texts (list : List (List UInt8)) :
    ∃ (texts : List String) (unread : List (List UInt8)),
      list = texts.map encoded ++ unread ∧ ∀ line ∈ unread.head?, ¬ IsText line := by
  induction list with
  | nil => exact ⟨[], [], rfl, by simp⟩
  | cons line rest ih =>
    by_cases htext : IsText line
    · obtain ⟨text, rfl⟩ := htext
      obtain ⟨texts, unread, rfl, hunread⟩ := ih
      exact ⟨text :: texts, unread, rfl, hunread⟩
    · exact ⟨[], line :: rest, rfl, by simpa using htext⟩

/-! ### Commands -/

/-- The commands up to the first quit, which is the last of them. -/
def upToQuit (commands : List Command) : List Command :=
  commands.takeWhile (· ≠ .quit) ++ (commands.dropWhile (· ≠ .quit)).take 1

theorem upToQuit_cons (command : Command) (rest : List Command) :
    upToQuit (command :: rest) = if command = .quit then [.quit] else command :: upToQuit rest := by
  by_cases hquit : command = .quit <;> simp [upToQuit, hquit]

theorem parse?_of_blank {text : String} (h : ∀ c ∈ text.toList, Text.IsBlank c) :
    parse? text = none := by
  rw [parse?, Text.words_of_blank h]
  rfl

theorem ofLines_encoded (text : String) (rest : List (List UInt8)) :
    ofLines (encoded text :: rest) =
      match parse? text with
      | none => ofLines rest
      | some command => if command = .quit then [.quit] else command :: ofLines rest := by
  rw [ofLines, decodeLine?_encoded]
  cases hparse : parse? text with
  | none => simp only [hparse]
  | some command => cases command <;> simp [hparse]

/-- The lines after one that is no text are never read. -/
theorem ofLines_unread {unread : List (List UInt8)} (h : ∀ line ∈ unread.head?, ¬ IsText line) :
    ofLines unread = [] := by
  cases unread with
  | nil => rfl
  | cons line rest => rw [ofLines, decodeLine?_eq_none_iff.mpr (h line rfl)]

theorem ofLines_texts (texts : List String) {unread : List (List UInt8)}
    (h : ∀ line ∈ unread.head?, ¬ IsText line) :
    ofLines (texts.map encoded ++ unread) = upToQuit (texts.filterMap parse?) := by
  induction texts with
  | nil => exact ofLines_unread h
  | cons text texts ih =>
    rw [List.map_cons, List.cons_append, ofLines_encoded, List.filterMap_cons, ih]
    cases parse? text with
    | none => rfl
    | some command => exact (upToQuit_cons command _).symm

/-- Leaving out blank lines leaves out no command. -/
theorem filterMap_filter_blank (texts : List String) :
    (texts.filter fun text => ∃ c ∈ text.toList, ¬ Text.IsBlank c).filterMap parse? =
      texts.filterMap parse? := by
  rw [List.filterMap_filter]
  apply List.filterMap_congr
  intro text _
  split
  · rfl
  · rename_i hblank
    exact (parse?_of_blank (by simpa using hblank)).symm

theorem upToQuit_of_mem {commands more : List Command} (h : .quit ∈ upToQuit commands) :
    upToQuit (commands ++ more) = upToQuit commands := by
  induction commands with
  | nil => contradiction
  | cons command rest ih =>
    rw [upToQuit_cons] at h
    rw [List.cons_append, upToQuit_cons, upToQuit_cons]
    split at h
    · rename_i hquit
      rw [if_pos hquit, if_pos hquit]
    · rename_i hquit
      rw [if_neg hquit, if_neg hquit, ih ((List.mem_cons.mp h).resolve_left (Ne.symm hquit))]

theorem upToQuit_of_not_mem {commands more : List Command} (h : .quit ∉ upToQuit commands) :
    upToQuit (commands ++ more) = upToQuit commands ++ upToQuit more := by
  induction commands with
  | nil => rfl
  | cons command rest ih =>
    rw [upToQuit_cons] at h
    rw [List.cons_append, upToQuit_cons, upToQuit_cons]
    split at h
    · simp at h
    · rename_i hquit
      rw [if_neg hquit, if_neg hquit, ih (not_or.mp (mt List.mem_cons.mpr h)).2]
      rfl

/-- The commands of a stream are those of its lines before the first that is not UTF-8, without the
blank lines and those that are no command, up to the first quit. What follows such a line or a quit
adds nothing to them, and otherwise what follows a line feed adds its own commands. -/
theorem forwards_exactly_commands (stream : List UInt8) :
    ∃ (list : List (List UInt8)) (texts : List String) (unread : List (List UInt8)),
      (∀ other, HasLines stream other ↔ other = list) ∧
      list = texts.map encoded ++ unread ∧ (∀ line ∈ unread.head?, ¬ IsText line) ∧
      ofStream stream = upToQuit
        ((texts.filter fun text => ∃ c ∈ text.toList, ¬ Text.IsBlank c).filterMap parse?) ∧
      (stream.getLast? = some 0x0A → ∀ more,
        (unread ≠ [] ∨ .quit ∈ ofStream stream → ofStream (stream ++ more) = ofStream stream) ∧
        (unread = [] → .quit ∉ ofStream stream →
          ofStream (stream ++ more) = ofStream stream ++ ofStream more)) := by
  obtain ⟨texts, unread, htexts, hunread⟩ := exists_texts (lines stream)
  have hstream : ofStream stream = upToQuit (texts.filterMap parse?) := by
    rw [ofStream, htexts, ofLines_texts texts hunread]
  refine ⟨lines stream, texts, unread, fun _ => hasLines_iff, htexts, hunread, ?_,
    fun hend more => ?_⟩
  · rw [filterMap_filter_blank, hstream]
  have hmore : ofStream (stream ++ more) =
      ofLines (texts.map encoded ++ (unread ++ lines more)) := by
    rw [ofStream, lines_append hend, htexts, List.append_assoc]
  obtain ⟨later, rest, hlater, hrest⟩ := exists_texts (lines more)
  have happend : unread = [] →
      ofStream (stream ++ more) = upToQuit (texts.filterMap parse? ++ later.filterMap parse?) := by
    rintro rfl
    rw [hmore, List.nil_append, hlater, ← List.append_assoc, ← List.map_append,
      ofLines_texts _ hrest, List.filterMap_append]
  refine ⟨fun h => ?_, fun hread hquit => ?_⟩
  · by_cases hread : unread = []
    · have hquit := h.resolve_left (not_not.mpr hread)
      rw [hstream] at hquit
      rw [happend hread, hstream, upToQuit_of_mem hquit]
    · rw [hmore, hstream]
      apply ofLines_texts
      rwa [List.head?_append_of_ne_nil _ hread]
  · rw [hstream] at hquit
    rw [happend hread, upToQuit_of_not_mem hquit, hstream, ofStream, hlater,
      ofLines_texts later hrest]

/-- A stream with a blank line, one that is no command and a quit, and what is typed after it. -/
theorem forwards_exactly_commands_quit :
    let stream := encoded " n\r\n\t\nhello\nv 7\nq\nb\n"
    stream.getLast? = some 0x0A ∧ .quit ∈ ofStream stream ∧
      ofStream (stream ++ encoded "r\n") = [.nextTrack, .volume (.cut 7), .quit] := by
  intro stream
  have hend : stream.getLast? = some 0x0A := by decide +kernel
  have hsent : ofStream stream = [.nextTrack, .volume (.cut 7), .quit] := by decide +kernel
  have hquit : .quit ∈ ofStream stream := by
    rw [hsent]
    decide
  obtain ⟨list, texts, unread, -, -, -, -, hmore⟩ := forwards_exactly_commands stream
  exact ⟨hend, hquit, ((hmore hend (encoded "r\n")).1 (.inr hquit)).trans hsent⟩

end Chiptune.Command
