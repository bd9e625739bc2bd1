/-!
# Paths

A path is a text with slashes between its segments. Empty segments and dots
after the first stand for nothing, so they are dropped around a parent.
-/
namespace Chiptune

abbrev Path := String

namespace Path

/-- Drops the slashes and lone dots from the end of a reversed path, but neither the root nor a path
that is nothing else. -/
def trimEnd : List Char → List Char
  | '/' :: c :: rest => trimEnd (c :: rest)
  | '.' :: '/' :: rest => trimEnd ('/' :: rest)
  | text => text

theorem length_trimEnd_le (text : List Char) : (trimEnd text).length ≤ text.length := by
  fun_induction trimEnd text <;> grind

/-- The reversed path of the directory that a reversed path lies in. The root lies in none. -/
def parentOf? (text : List Char) : Option (List Char) :=
  match trimEnd text with
  | [] | ['/'] => none
  | c :: rest => some (trimEnd ((c :: rest).dropWhile (· != '/')))

theorem eq_nil_of_trimEnd_eq {text rest : List Char} (h : trimEnd text = '/' :: rest) :
    rest = [] := by
  fun_induction trimEnd text with
  | case1 c rest ih => exact ih h
  | case2 rest ih => exact ih h
  | case3 text hslash _ =>
    subst h
    cases rest with
    | nil => rfl
    | cons c rest => exact absurd rfl (hslash c rest)

theorem length_parentOf?_lt {text parent : List Char} (h : parentOf? text = some parent) :
    parent.length < text.length := by
  have hle := length_trimEnd_le text
  rw [parentOf?] at h
  split at h
  · simp at h
  · simp at h
  · next c rest hroot ht =>
    have hc : c ≠ '/' := by
      rintro rfl
      exact hroot rfl (eq_nil_of_trimEnd_eq ht)
    obtain rfl := Option.some.inj h
    rw [ht, List.length_cons] at hle
    have htrim := length_trimEnd_le ((c :: rest).dropWhile (· != '/'))
    have hdrop := (List.dropWhile_sublist (· != '/') (l := rest)).length_le
    rw [List.dropWhile_cons_of_pos (by simpa using hc)] at htrim ⊢
    omega

/-- The directory that a path lies in: empty for a single segment, and none for the root. -/
def parent? (path : Path) : Option Path :=
  (parentOf? path.toList.reverse).map fun text => String.ofList text.reverse

theorem length_parent?_lt {path parent : Path} (h : path.parent? = some parent) :
    parent.toList.length < path.toList.length := by
  obtain ⟨text, ht, rfl⟩ := Option.map_eq_some_iff.1 h
  have := length_parentOf?_lt ht
  simpa using this

def endsWithSlash (path : Path) : Bool := path.toList.getLast? == some '/'

/-- A path below a directory; the empty directory is the current one. -/
def join (directory : Path) (name : String) : Path :=
  if directory.isEmpty || endsWithSlash directory then directory ++ name
  else directory ++ "/" ++ name

/-- The parts between slashes, after those already read of the current one in reverse. -/
def segmentsFrom (current : List Char) : List Char → List String
  | [] => [String.ofList current.reverse]
  | c :: rest =>
    if c == '/' then String.ofList current.reverse :: segmentsFrom [] rest
    else segmentsFrom (c :: current) rest

/-- The segments that are not empty. -/
def segments (path : Path) : List String := (segmentsFrom [] path.toList).filter (· != "")

def isAbsolute (path : Path) : Bool := path.toList.head? == some '/'

end Path
end Chiptune
