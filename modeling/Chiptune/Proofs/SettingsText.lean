import Chiptune.Percent
import Chiptune.Toml.Basic
import Mathlib

/-!
# Documents of one line

A scan takes something off the front of a text, and one scan after another takes
both. So a line with a bare key and a whole number is a document whose only entry
is that number.
-/
namespace Chiptune.Toml

open Scan

/-- A scan takes a value off the front of a text and leaves the rest. -/
def Takes {α : Type} (scan : Scan α) (bound : ℕ) (text : List Char) (a : α) (rest : List Char) :
    Prop :=
  scan bound text = some (a, rest)

theorem ne_of_class {p : Char → Bool} {c d : Char} (hc : p c = true) (hd : p d = false) :
    c ≠ d := by
  rintro rfl
  rw [hd] at hc
  contradiction

section

variable {α β : Type} {bound : ℕ} {text middle rest : List Char} {a : α} {b : β}

theorem Takes.bind {scan : Scan α} {next : α → Scan β} (h : Takes scan bound text a middle)
    (hnext : Takes (next a) bound middle b rest) : Takes (scan >>= next) bound text b rest := by
  unfold Takes at h
  simp only [Takes, Bind.bind, ReaderT.bind, StateT.bind, h, Option.bind]
  exact hnext

theorem takes_pure (a : α) : Takes (pure a) bound text a text := rfl

theorem takes_peek? : Takes peek? bound text text.head? text := rfl

/-- A run ends before the first character of another class. -/
theorem takes_run {p : Char → Bool} {inside : List Char} (hinside : ∀ c ∈ inside, p c = true)
    (hafter : ∀ c ∈ rest.head?, p c = false) :
    Takes (run p) bound (inside ++ rest) inside rest := by
  rw [Takes, run, List.takeWhile_append_of_pos hinside, List.dropWhile_append_of_pos hinside]
  cases rest with
  | nil => simp
  | cons c rest => simp [hafter c rfl]

theorem takes_spaces (inside : List Char) (hinside : ∀ c ∈ inside, isSpace c = true)
    (hafter : ∀ c ∈ rest.head?, isSpace c = false) : Takes spaces bound (inside ++ rest) () rest :=
  (takes_run hinside hafter).bind (takes_pure ())

theorem takes_skip? (word : List Char) : Takes (skip? word) bound (word ++ rest) true rest := by
  simp [Takes, skip?]

theorem takes_skip?_of_ne {word : List Char} (h : ¬ word <+: text) :
    Takes (skip? word) bound text false text := by
  simp [Takes, skip?, h]

theorem takes_skip (word : List Char) : Takes (skip word) bound (word ++ rest) () rest :=
  (takes_skip? word).bind (takes_pure ())

end

/-- A key that needs no quotes. -/
def IsBareKey (key : List Char) : Prop := key ≠ [] ∧ ∀ c ∈ key, isBareKeyChar c = true

/-- Digits that are read as a whole number. -/
structure IsWhole (digits : List Char) (n : ℤ) : Prop where
  nonempty : digits ≠ []
  decimal : ∀ c ∈ digits, c.isDigit = true
  value : integer? digits = some n

/-- Every percentage is written without leading zeros. -/
theorem isWhole_toDigits (percent : Percent) :
    IsWhole (Nat.toDigits 10 percent.val) percent.val where
  nonempty := Nat.toDigits_ne_nil
  decimal _ := Nat.isDigit_of_mem_toDigits (by decide) (by decide)
  value := by
    revert percent
    decide +kernel

/-- A bare key and a whole number on a line of their own. -/
def assignment (key digits : List Char) : List Char :=
  key ++ [' ', '='] ++ ' ' :: (digits ++ ['\n'])

section

variable {key digits rest : List Char} {n : ℤ}

/-- A bare key before an equals sign is all of the path. -/
theorem takes_dottedKey (hkey : IsBareKey key) (bound : ℕ) :
    Takes dottedKey bound (key ++ [' ', '='] ++ rest) ([], key) ('=' :: rest) := by
  have hbare : Takes simpleKey bound (key ++ [' ', '='] ++ rest) key ([' '] ++ '=' :: rest) := by
    rw [List.append_assoc]
    refine (takes_run hkey.2 (by simp [isBareKeyChar])).bind ?_
    rw [if_neg (by simpa using hkey.1)]
    exact takes_pure key
  refine hbare.bind ((takes_spaces [' '] (by simp [isSpace]) (by simp [isSpace])).bind ?_)
  exact (takes_skip?_of_ne (by simp)).bind (takes_pure _)

theorem takes_scalar (hdigits : IsWhole digits n) (bound : ℕ) :
    Takes scalar bound (digits ++ ['\n']) (.integer n) ['\n'] := by
  have hclass : ∀ c ∈ digits, isScalarChar c = true := by
    intro c hc
    simp [isScalarChar, Char.isAlphanum, hdigits.decimal c hc]
  have htime : Takes (timeAfter digits) bound ['\n'] digits ['\n'] := rfl
  refine (takes_run hclass (by simp [isScalarChar])).bind (htime.bind ?_)
  rw [scalarValue?, hdigits.value]
  exact takes_pure _

/-- What begins with a digit is neither quoted nor in brackets. -/
theorem takes_valueIn (hdigits : IsWhole digits n) (bound fuel depth : ℕ) :
    Takes (valueIn (fuel + 1) depth) bound (digits ++ ['\n']) (.integer n) ['\n'] := by
  have hscalar := takes_scalar hdigits bound
  obtain ⟨c, tail, rfl⟩ := List.exists_cons_of_ne_nil hdigits.nonempty
  have hother : ∀ d : Char, d.isDigit = false → c ≠ d :=
    fun d => ne_of_class (hdigits.decimal c List.mem_cons_self)
  rw [valueIn]
  refine takes_peek?.bind ?_
  simpa [hother '"' rfl, hother '\'' rfl, hother '[' rfl, hother '{' rfl] using hscalar

theorem takes_fieldLine (hkey : IsBareKey key) (hdigits : IsWhole digits n) (bound : ℕ) :
    Takes fieldLine bound (assignment key digits)
      { path := [], key, value := .integer n } ['\n'] := by
  have hspace : ∀ c ∈ (digits ++ ['\n']).head?, isSpace c = false := by
    obtain ⟨d, tail, rfl⟩ := List.exists_cons_of_ne_nil hdigits.nonempty
    have hd := hdigits.decimal d List.mem_cons_self
    simpa [isSpace] using ⟨ne_of_class hd rfl, ne_of_class hd rfl⟩
  have hbound : Takes Scan.bound bound (digits ++ ['\n']) bound (digits ++ ['\n']) := rfl
  refine (takes_dottedKey hkey bound).bind ((takes_skip ['=']).bind ?_)
  refine (takes_spaces [' '] (by simp [isSpace]) hspace).bind (hbound.bind ?_)
  exact (takes_valueIn hdigits bound (2 * bound + 1) 0).bind (takes_pure _)

theorem takes_line (hkey : IsBareKey key) (hdigits : IsWhole digits n) (bound : ℕ) :
    Takes line bound (assignment key digits)
      (.field { path := [], key, value := .integer n }) [] := by
  have hend : Takes endLine bound ['\n'] () [] := rfl
  have hfield :
      Takes (fieldLine >>= fun field => endLine >>= fun _ => pure (Line.field field)) bound
        (assignment key digits) _ [] :=
    (takes_fieldLine hkey hdigits bound).bind (hend.bind (takes_pure _))
  unfold assignment at hfield ⊢
  obtain ⟨c, tail, rfl⟩ := List.exists_cons_of_ne_nil hkey.1
  have hother : ∀ d : Char, isBareKeyChar d = false → c ≠ d :=
    fun d => ne_of_class (hkey.2 c List.mem_cons_self)
  have hspace : isSpace c = false := by
    simp [isSpace, hother ' ' rfl, hother '\t' rfl]
  refine (takes_spaces [] (by simp) (by simpa using hspace)).bind (takes_peek?.bind ?_)
  simpa [hother '[' rfl, hother '#' rfl, hother '\n' rfl, hother '\r' rfl] using hfield

/-- A line that takes the whole text is the only one. -/
theorem takes_lines {text : List Char} {first : Line} {bound : ℕ} (hne : text ≠ [])
    (h : Takes line bound text first []) (limit : ℕ) :
    Takes (lines (limit + 1)) bound text [first] [] := by
  have hget : Takes get bound text text text := rfl
  have hrest : Takes (lines limit) bound [] [] [] := by
    cases limit <;> rfl
  refine hget.bind ?_
  rw [if_neg (by simpa using hne)]
  exact h.bind (hrest.bind (takes_pure _))

theorem parse?_assignment (hkey : IsBareKey key) (hdigits : IsWhole digits n) :
    parse? (.ofList (assignment key digits)) = some [(key, .value (.integer n))] := by
  generalize htext : assignment key digits = text
  have hline := takes_line hkey hdigits text.length
  rw [htext] at hline
  obtain ⟨c, tail, rfl⟩ := List.exists_cons_of_ne_nil hkey.1
  have hmark : dropMark text = text := by
    have hother : c ≠ '\uFEFF' := ne_of_class (hkey.2 c List.mem_cons_self) rfl
    rw [← htext]
    simp [assignment, dropMark, hother]
  obtain ⟨limit, hlimit⟩ : ∃ limit, text.length = limit + 1 := ⟨_, by rw [← htext]; rfl⟩
  have hlines := takes_lines (List.ne_nil_of_length_eq_add_one hlimit) hline limit
  rw [← hlimit] at hlines
  have hall : (lines text.length).all? text =
      some [.field { path := [], key := c :: tail, value := .integer n }] := by
    rw [all?, show lines text.length text.length text = _ from hlines]
  rw [parse?, String.toList_ofList]
  dsimp only
  rw [hmark, hall]
  rfl

end

end Chiptune.Toml
