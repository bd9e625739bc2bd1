import Chiptune.Storage.Disk
import Mathlib

/-!
# What changes on a disk

Every path names one place, whether there is anything or not. `Changes` bounds
what an operation does to a disk: it makes directories and takes none away, and
it leaves the files alone but for those at some places. Making directories
changes no file, writing changes the file that is written, and a file that has
been written is read back. Whatever is read stays so while the changes are
elsewhere.
-/
namespace Chiptune

/-- Two steps succeed exactly if each of them does. -/
theorem bind_eq_ok_iff {ε α β : Type} {first : Except ε α} {second : α → Except ε β} {b : β} :
    first >>= second = .ok b ↔ ∃ a, first = .ok a ∧ second a = .ok b := by
  cases first <;> simp [bind, Except.bind]

namespace Disk

variable {disk before after : Disk} {path : Path} {location : Location} {content : ByteArray}

/-! ### Places -/

/-- Goes along one segment of a path, as if there were a directory. -/
def along (location : Location) (segment : String) : Location :=
  if segment = "." then location
  else if segment = ".." then location.dropLast
  else location ++ [segment]

/-- Where a path begins. -/
def origin (disk : Disk) (path : Path) : Location :=
  if path.isAbsolute then [] else disk.workingDirectory

/-- The place that a path names. -/
def place (disk : Disk) (path : Path) : Location := path.segments.foldl along (disk.origin path)

/-- The content of the file at a location, if there is one. -/
def file? (disk : Disk) (location : Location) : Option ByteArray :=
  match disk.find? location with
  | some (.file content) => some content
  | _ => none

/-- A location that ends in a name which is short enough. -/
def IsNamed (location : Location) : Prop :=
  location.getLast?.any (nameLimit < ·.utf8ByteSize) = false

theorem lookUp_eq_ok_iff {entry : Option DiskEntry} :
    disk.lookUp location = .ok entry ↔ IsNamed location ∧ disk.find? location = entry := by
  unfold lookUp IsNamed
  split <;> simp_all

theorem enter_eq_ok_iff {segment : String} {next : Location} :
    disk.enter location segment = .ok next ↔
      (IsNamed location ∧ disk.find? location = some .directory) ∧
        along location segment = next := by
  rw [enter, bind_eq_ok_iff, ← lookUp_eq_ok_iff]
  constructor
  · rintro ⟨entry, hentry, hnext⟩
    match entry with
    | none | some (.file _) => contradiction
    | some .directory =>
      refine ⟨hentry, ?_⟩
      unfold along
      split_ifs at hnext ⊢ <;> exact Except.ok.inj hnext
  · rintro ⟨hentry, rfl⟩
    refine ⟨_, hentry, ?_⟩
    unfold along
    split_ifs <;> rfl

theorem foldlM_enter_cons {segment : String} {rest : List String} {last : Location} :
    (segment :: rest).foldlM disk.enter location = .ok last ↔
      ∃ next, disk.enter location segment = .ok next ∧ rest.foldlM disk.enter next = .ok last := by
  rw [List.foldlM_cons, bind_eq_ok_iff]

theorem foldl_along {segments : List String} {last : Location}
    (h : segments.foldlM disk.enter location = .ok last) :
    segments.foldl along location = last := by
  induction segments generalizing location with
  | nil => exact Except.ok.inj h
  | cons segment rest ih =>
    obtain ⟨next, hnext, hrest⟩ := foldlM_enter_cons.mp h
    rw [List.foldl_cons, (enter_eq_ok_iff.mp hnext).2, ih hrest]

theorem locate_eq_ok_iff :
    disk.locate path = .ok location ↔
      path.utf8ByteSize ≤ pathLimit ∧
        path.segments.foldlM disk.enter (disk.origin path) = .ok location := by
  unfold locate
  by_cases hlong : pathLimit < path.utf8ByteSize
  · simp [hlong, Nat.not_le.mpr hlong]
  · rw [if_neg hlong]
    exact (and_iff_right (Nat.not_lt.mp hlong)).symm

/-- A path that can be located is located at the place that it names. -/
theorem place_of_locate (h : disk.locate path = .ok location) : disk.place path = location :=
  foldl_along (locate_eq_ok_iff.mp h).2

theorem locateExisting_eq_ok_iff :
    disk.locateExisting path = .ok location ↔
      disk.locate path = .ok location ∧
        (path.endsWithSlash = true → IsNamed location ∧ disk.find? location = some .directory) := by
  have hstay : along location "." = location := rfl
  rw [locateExisting, bind_eq_ok_iff]
  split
  · rename_i hslash
    simp only [enter_eq_ok_iff, hslash, true_implies]
    constructor
    · rintro ⟨found, hfound, hdirectory, rfl⟩
      exact ⟨hfound, hdirectory⟩
    · rintro ⟨hfound, hdirectory⟩
      exact ⟨location, hfound, hdirectory, hstay⟩
  · rename_i hslash
    simp only [hslash, false_implies, and_true, Bool.false_eq_true]
    constructor
    · rintro ⟨found, hfound, hsame⟩
      exact hfound.trans hsame
    · intro hfound
      exact ⟨location, hfound, rfl⟩

theorem read_eq_ok_iff :
    disk.read path = .ok content ↔
      ∃ location, disk.locateExisting path = .ok location ∧ IsNamed location ∧
        disk.find? location = some (.file content) := by
  rw [read, bind_eq_ok_iff]
  refine exists_congr fun location => and_congr_right fun _ => ?_
  rw [bind_eq_ok_iff, ← lookUp_eq_ok_iff]
  constructor
  · rintro ⟨entry, hentry, hcontent⟩
    match entry with
    | none | some .directory => contradiction
    | some (.file _) => rwa [← Except.ok.inj hcontent]
  · intro hentry
    exact ⟨_, hentry, rfl⟩

/-! ### Changes -/

/-- What an operation may do to a disk when it changes no files but those at some places. -/
structure Changes (places : Set Location) (before after : Disk) : Prop where
  workingDirectory_eq : after.workingDirectory = before.workingDirectory
  directory (location : Location) :
    before.find? location = some .directory → after.find? location = some .directory
  file?_eq (location : Location) : location ∉ places → after.file? location = before.file? location

section

variable {places : Set Location}

theorem Changes.refl (places : Set Location) (disk : Disk) : Changes places disk disk :=
  ⟨rfl, fun _ h => h, fun _ _ => rfl⟩

theorem Changes.trans {middle : Disk} (h : Changes places before middle)
    (h' : Changes places middle after) : Changes places before after :=
  ⟨h'.workingDirectory_eq.trans h.workingDirectory_eq,
    fun location hlocation => h'.directory location (h.directory location hlocation),
    fun location hlocation =>
      (h'.file?_eq location hlocation).trans (h.file?_eq location hlocation)⟩

theorem Changes.mono {more : Set Location} (h : Changes places before after)
    (hmore : places ⊆ more) : Changes more before after :=
  ⟨h.workingDirectory_eq, h.directory,
    fun location hlocation => h.file?_eq location fun hmem => hlocation (hmore hmem)⟩

theorem Changes.origin_eq (h : Changes places before after) (path : Path) :
    after.origin path = before.origin path := by
  rw [origin, origin, h.workingDirectory_eq]

theorem Changes.place_eq (h : Changes places before after) (path : Path) :
    after.place path = before.place path := by
  rw [place, place, h.origin_eq]

theorem Changes.enter (h : Changes places before after) {segment : String} {next : Location}
    (hnext : before.enter location segment = .ok next) :
    after.enter location segment = .ok next := by
  obtain ⟨⟨hname, hdirectory⟩, halong⟩ := enter_eq_ok_iff.mp hnext
  exact enter_eq_ok_iff.mpr ⟨⟨hname, h.directory location hdirectory⟩, halong⟩

theorem Changes.locate (h : Changes places before after)
    (hfound : before.locate path = .ok location) : after.locate path = .ok location := by
  have hwalk : ∀ (segments : List String) (start : Location),
      segments.foldlM before.enter start = .ok location →
        segments.foldlM after.enter start = .ok location := by
    intro segments
    induction segments with
    | nil => exact fun _ h => h
    | cons segment rest ih =>
      intro start hstart
      obtain ⟨next, hnext, hrest⟩ := foldlM_enter_cons.mp hstart
      exact foldlM_enter_cons.mpr ⟨next, h.enter hnext, ih next hrest⟩
  obtain ⟨hlimit, hfound⟩ := locate_eq_ok_iff.mp hfound
  refine locate_eq_ok_iff.mpr ⟨hlimit, ?_⟩
  rw [h.origin_eq]
  exact hwalk _ _ hfound

theorem Changes.locateExisting (h : Changes places before after)
    (hfound : before.locateExisting path = .ok location) :
    after.locateExisting path = .ok location := by
  obtain ⟨hlocate, hslash⟩ := locateExisting_eq_ok_iff.mp hfound
  exact locateExisting_eq_ok_iff.mpr ⟨h.locate hlocate, fun hends =>
    ⟨(hslash hends).1, h.directory location (hslash hends).2⟩⟩

theorem file?_eq_some_iff : disk.file? location = some content ↔
    disk.find? location = some (.file content) := by
  unfold file?
  split
  · simp_all
  · rename_i hfile
    simpa using hfile content

/-- What is read stays so while the changes are elsewhere. -/
theorem Changes.read (h : Changes places before after) (hread : before.read path = .ok content)
    (hplace : before.place path ∉ places) : after.read path = .ok content := by
  obtain ⟨location, hlocate, hname, hfile⟩ := read_eq_ok_iff.mp hread
  rw [place_of_locate (locateExisting_eq_ok_iff.mp hlocate).1] at hplace
  refine read_eq_ok_iff.mpr ⟨location, h.locateExisting hlocate, hname, ?_⟩
  rw [← file?_eq_some_iff, h.file?_eq location hplace]
  exact file?_eq_some_iff.mpr hfile

end

/-! ### Writing -/

theorem find?_root (disk : Disk) : disk.find? [] = some .directory := rfl

theorem ne_root_of_find? (h : disk.find? location ≠ some .directory) : location ≠ [] := by
  rintro rfl
  exact h disk.find?_root

/-- Putting something where there is no directory changes nothing but a file there. -/
theorem changes_put (entry : DiskEntry) (h : disk.find? location ≠ some .directory) :
    Changes {location} disk (disk.put location entry) := by
  have hroot := ne_root_of_find? h
  refine ⟨rfl, fun other hother => ?_, fun other hother => ?_⟩
  · have hne : other ≠ location := by
      rintro rfl
      exact h hother
    rw [find?_put disk hroot, if_neg hne, hother]
  · have hne : other ≠ location := hother
    rw [file?, find?_put disk hroot, if_neg hne, file?]

/-- A directory in a free place changes no file. -/
theorem changes_put_directory (h : disk.find? location = none) :
    Changes ∅ disk (disk.put location .directory) := by
  have hfree : disk.find? location ≠ some .directory := by simp [h]
  have hput := changes_put .directory hfree
  refine ⟨rfl, hput.directory, fun other _ => ?_⟩
  by_cases hne : other = location
  · subst hne
    rw [file?, find?_put disk (ne_root_of_find? hfree), if_pos rfl, file?, h]
  · exact hput.file?_eq other hne

theorem write_eq_ok_iff :
    disk.write path content = .ok after ↔
      ∃ location, disk.locate path = .ok location ∧ path.endsWithSlash = false ∧
        (IsNamed location ∧ disk.find? location ≠ some .directory) ∧
          disk.put location (.file content) = after := by
  rw [write, bind_eq_ok_iff]
  refine exists_congr fun location => and_congr_right fun _ => ?_
  cases hslash : path.endsWithSlash with
  | true => simp [bind, Except.bind, throw, throwThe, MonadExceptOf.throw]
  | false =>
    simp only [Bool.false_eq_true, if_false, true_and]
    rw [bind_eq_ok_iff]
    constructor
    · rintro ⟨entry, hentry, hput⟩
      obtain ⟨hname, hfind⟩ := lookUp_eq_ok_iff.mp hentry
      match entry with
      | some .directory => contradiction
      | none | some (.file _) => exact ⟨⟨hname, by simp [hfind]⟩, Except.ok.inj hput⟩
    · rintro ⟨⟨hname, hfind⟩, rfl⟩
      refine ⟨_, lookUp_eq_ok_iff.mpr ⟨hname, rfl⟩, ?_⟩
      split
      · contradiction
      · rfl

theorem changes_write (h : disk.write path content = .ok after) :
    Changes {disk.place path} disk after := by
  obtain ⟨location, hlocate, -, ⟨-, hfind⟩, rfl⟩ := write_eq_ok_iff.mp h
  rw [place_of_locate hlocate]
  exact changes_put _ hfind

/-- What has been written is read back. -/
theorem read_write (h : disk.write path content = .ok after) : after.read path = .ok content := by
  have hchanges := changes_write h
  obtain ⟨location, hlocate, hslash, ⟨hname, hfind⟩, rfl⟩ := write_eq_ok_iff.mp h
  have hroot := ne_root_of_find? hfind
  refine read_eq_ok_iff.mpr ⟨location, ?_, hname, ?_⟩
  · exact locateExisting_eq_ok_iff.mpr ⟨hchanges.locate hlocate, by simp [hslash]⟩
  · rw [find?_put disk hroot, if_pos rfl]

/-! ### Making directories -/

theorem makeDirectory_eq_ok_iff :
    disk.makeDirectory path = .ok after ↔
      ∃ location, disk.locate path = .ok location ∧
        (IsNamed location ∧ disk.find? location = none) ∧ disk.put location .directory = after := by
  rw [makeDirectory, bind_eq_ok_iff]
  refine exists_congr fun location => and_congr_right fun _ => ?_
  rw [bind_eq_ok_iff, ← lookUp_eq_ok_iff]
  constructor
  · rintro ⟨entry, hentry, hput⟩
    match entry with
    | some _ => contradiction
    | none => exact ⟨hentry, Except.ok.inj hput⟩
  · rintro ⟨hentry, rfl⟩
    exact ⟨none, hentry, rfl⟩

theorem changes_makeDirectory (h : disk.makeDirectory path = .ok after) : Changes ∅ disk after := by
  obtain ⟨location, -, ⟨-, hfree⟩, rfl⟩ := makeDirectory_eq_ok_iff.mp h
  exact changes_put_directory hfree

theorem changes_ensureDirectory (disk : Disk) (path : Path) :
    Changes ∅ disk (disk.ensureDirectory path).2 := by
  unfold ensureDirectory
  split
  · rename_i made hmade
    exact changes_makeDirectory hmade
  · exact .refl ∅ disk

theorem createDirectories_of_missing {parent : Path} (hpath : path ≠ "")
    (hmissing : disk.makeDirectory path = .error .notFound) (hparent : path.parent? = some parent) :
    disk.createDirectories path =
      match disk.createDirectories parent with
      | (.ok _, disk) => disk.ensureDirectory path
      | failed => failed := by
  rw [createDirectories, if_neg hpath]
  split
  · rename_i found _ hfound
    obtain rfl : found = parent := Option.some.inj (hfound.symm.trans hparent)
    rfl
  · rename_i hother
    exact absurd hparent (hother parent hmissing)

theorem createDirectories_of_not_missing (hpath : path ≠ "")
    (hother : ∀ parent, disk.makeDirectory path = .error .notFound → path.parent? ≠ some parent) :
    disk.createDirectories path = disk.ensureDirectory path := by
  rw [createDirectories, if_neg hpath]
  split
  · rename_i parent hmissing hparent
    exact absurd hparent (hother parent hmissing)
  · rfl

/-- However far making directories gets, it changes no file. -/
theorem changes_createDirectories (disk : Disk) (path : Path) :
    Changes ∅ disk (disk.createDirectories path).2 := by
  fun_induction createDirectories disk path with
  | case1 => exact .refl ∅ disk
  | case2 path _ parent _ _ _ made disk' hparent ih =>
    rw [hparent] at ih
    exact ih.trans (changes_ensureDirectory disk' path)
  | case3 path _ parent _ _ _ _ ih => exact ih
  | case4 path => exact changes_ensureDirectory disk path

end Disk
end Chiptune
