import Chiptune.Proofs.DiskChanges

/-!
# What is not seen of a file

No operation on a disk sees the content of a file but those at its place. So
putting another content into a file beforehand comes to the same as doing it
afterwards, and makes no difference to any answer.
-/
namespace Chiptune

/-- A file with another content. A directory stays what it is. -/
def DiskEntry.refill (content : ByteArray) : DiskEntry → DiskEntry
  | .directory => .directory
  | .file _ => .file content

namespace Disk

/-- The entry of a location, where the file at one location has another content. -/
def refillAt (location : Location) (content : ByteArray) (other : Location) (entry : DiskEntry) :
    DiskEntry :=
  if other = location then entry.refill content else entry

/-- The disk with another content of the file at a location, if there is one. -/
def refill (disk : Disk) (location : Location) (content : ByteArray) : Disk :=
  { disk with
    entries := disk.entries.map fun item => (item.1, refillAt location content item.1 item.2) }

section

variable (disk : Disk) (path : Path) (location : Location) (content : ByteArray)

theorem refillAt_directory (other : Location) :
    refillAt location content other .directory = .directory := by
  unfold refillAt DiskEntry.refill
  split <;> rfl

theorem refillAt_of_ne {other : Location} (h : other ≠ location) (entry : DiskEntry) :
    refillAt location content other entry = entry := if_neg h

theorem lookup_map_snd {β γ : Type} (f : Location → β → γ) (list : List (Location × β))
    (key : Location) :
    (list.map fun item => (item.1, f item.1 item.2)).lookup key =
      (list.lookup key).map (f key) := by
  induction list with
  | nil => rfl
  | cons item rest ih =>
    rw [List.map_cons, List.lookup_cons, List.lookup_cons, ih]
    cases hkey : key == item.1 with
    | true => rw [eq_of_beq hkey]; rfl
    | false => rfl

theorem find?_refill (other : Location) :
    (disk.refill location content).find? other =
      (disk.find? other).map (refillAt location content other) := by
  unfold find?
  split
  · rw [Option.map_some, refillAt_directory]
  · exact lookup_map_snd (refillAt location content) disk.entries other

theorem put_refill {other : Location} {entry : DiskEntry}
    (h : refillAt location content other entry = entry) :
    (disk.refill location content).put other entry =
      (disk.put other entry).refill location content := by
  simp only [put, refill, List.map_cons, List.filter_map, h]
  rfl

theorem exists_refillAt_file (other : Location) (data : ByteArray) :
    ∃ data', refillAt location content other (.file data) = .file data' := by
  unfold refillAt DiskEntry.refill
  split
  exacts [⟨content, rfl⟩, ⟨data, rfl⟩]

theorem lookUp_refill (other : Location) :
    (disk.refill location content).lookUp other =
      (disk.lookUp other).map (Option.map (refillAt location content other)) := by
  unfold lookUp
  split
  · rfl
  · rw [find?_refill]
    rfl

theorem lookUp_refill_of_ne {other : Location} (h : other ≠ location) :
    (disk.refill location content).lookUp other = disk.lookUp other := by
  have hid : refillAt location content other = id := funext (refillAt_of_ne location content h)
  rw [lookUp_refill, hid, Option.map_id, Except.map_id]
  rfl

/-- What lies at a location is a directory, a file or nothing, whatever the content of files. -/
theorem enter_refill (start : Location) (segment : String) :
    (disk.refill location content).enter start segment = disk.enter start segment := by
  rw [enter, enter, lookUp_refill]
  rcases disk.lookUp start with _ | _ | _ | data
  · rfl
  · rfl
  · simp only [Except.map, Option.map_some, refillAt_directory]
  · obtain ⟨data', hdata'⟩ := exists_refillAt_file location content start data
    simp only [Except.map, Option.map_some, hdata']
    rfl

theorem locate_refill : (disk.refill location content).locate path = disk.locate path := by
  have hwalk : (disk.refill location content).enter = disk.enter :=
    funext fun start => funext fun segment => enter_refill disk location content start segment
  rw [locate, locate, hwalk]
  rfl

theorem locateExisting_refill :
    (disk.refill location content).locateExisting path = disk.locateExisting path := by
  simp only [locateExisting, locate_refill, enter_refill]

theorem read_refill (h : disk.place path ≠ location) :
    (disk.refill location content).read path = disk.read path := by
  rw [read, read, locateExisting_refill]
  cases hfound : disk.locateExisting path with
  | error cause => rfl
  | ok found =>
    have hne : found ≠ location :=
      place_of_locate (locateExisting_eq_ok_iff.mp hfound).1 ▸ h
    simp only [bind, Except.bind, lookUp_refill_of_ne disk location content hne]

theorem write_refill (h : disk.place path ≠ location) (data : ByteArray) :
    (disk.refill location content).write path data =
      (disk.write path data).map (·.refill location content) := by
  rw [write, write, locate_refill]
  cases hfound : disk.locate path with
  | error cause => rfl
  | ok found =>
    have hne : found ≠ location := place_of_locate hfound ▸ h
    have hput := put_refill disk location content (refillAt_of_ne location content hne (.file data))
    simp only [bind, Except.bind, lookUp_refill_of_ne disk location content hne, hput]
    cases path.endsWithSlash with
    | true => rfl
    | false => rcases disk.lookUp found with _ | _ | _ | _ <;> rfl

theorem makeDirectory_refill :
    (disk.refill location content).makeDirectory path =
      (disk.makeDirectory path).map (·.refill location content) := by
  rw [makeDirectory, makeDirectory, locate_refill]
  cases disk.locate path with
  | error cause => rfl
  | ok found =>
    have hput := put_refill disk location content (refillAt_directory location content found)
    simp only [bind, Except.bind, lookUp_refill, hput]
    rcases disk.lookUp found with _ | _ | _ <;> rfl

theorem isDirectory_refill :
    (disk.refill location content).isDirectory path = disk.isDirectory path := by
  rw [isDirectory, isDirectory, locateExisting_refill]
  cases disk.locateExisting path with
  | error cause => rfl
  | ok found =>
    simp only [Except.toOption, Option.bind_some, find?_refill]
    rcases disk.find? found with _ | _ | data
    · rfl
    · simp only [Option.map_some, refillAt_directory]
    · obtain ⟨data', hdata'⟩ := exists_refillAt_file location content found data
      simp only [Option.map_some, hdata']

theorem ensureDirectory_refill :
    (disk.refill location content).ensureDirectory path =
      ((disk.ensureDirectory path).1, (disk.ensureDirectory path).2.refill location content) := by
  rw [ensureDirectory, ensureDirectory, makeDirectory_refill, isDirectory_refill]
  cases disk.makeDirectory path <;> rfl

theorem createDirectories_refill :
    (disk.refill location content).createDirectories path =
      ((disk.createDirectories path).1,
        (disk.createDirectories path).2.refill location content) := by
  fun_induction createDirectories disk path with
  | case1 => rw [createDirectories, if_pos rfl]
  | case2 path hpath parent hparent hmissing _ made disk' hmade ih =>
    rw [hmade] at ih
    rw [createDirectories_of_missing hpath (by rw [makeDirectory_refill, hmissing]; rfl) hparent,
      ih]
    exact ensureDirectory_refill disk' path location content
  | case3 path hpath parent hparent hmissing _ hfailed ih =>
    rw [createDirectories_of_missing hpath (by rw [makeDirectory_refill, hmissing]; rfl) hparent,
      ih]
    rcases hmade : disk.createDirectories parent with ⟨cause | made, disk'⟩
    · rfl
    · exact absurd hmade (hfailed made disk')
  | case4 path hpath hother =>
    rw [createDirectories_of_not_missing hpath]
    · exact ensureDirectory_refill disk path location content
    · intro parent hmissing hparent
      rw [makeDirectory_refill] at hmissing
      cases hmade : disk.makeDirectory path with
      | ok made => simp [hmade, Except.map] at hmissing
      | error cause =>
        rw [hmade] at hmissing
        exact hother parent (hmade.trans hmissing) hparent

end

end Disk
end Chiptune
