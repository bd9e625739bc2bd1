import Chiptune.Storage.Basic

/-!
# Disks

A disk is a tree of directories and files, kept as a list of what lies where. A
location is the list of names on the way from the root, which is always a
directory. Relative paths begin at the working directory. Names and paths have
a greatest length in bytes: a long path is refused at once, a long name when it
is looked up.
-/
namespace Chiptune

abbrev Location := List String

inductive DiskEntry where
  | directory
  | file (content : ByteArray)

structure Disk where
  entries : List (Location × DiskEntry) := []
  workingDirectory : Location := []

namespace Disk

def find? (disk : Disk) (location : Location) : Option DiskEntry :=
  if location = [] then some .directory else disk.entries.lookup location

/-- Puts an entry at a location, in place of the one that is there. -/
def put (disk : Disk) (location : Location) (entry : DiskEntry) : Disk :=
  { disk with entries := (location, entry) :: disk.entries.filter (·.1 != location) }

theorem lookup_filter_ne {entries : List (Location × DiskEntry)} {location other : Location}
    (h : other ≠ location) :
    (entries.filter (·.1 != location)).lookup other = entries.lookup other := by
  induction entries with
  | nil => rfl
  | cons head rest ih =>
    obtain ⟨place, entry⟩ := head
    by_cases hp : place = location
    · have ho : (other == place) = false := by simpa [hp] using h
      rw [List.filter_cons_of_neg (by simp [hp]), List.lookup_cons, ho, ih]
    · rw [List.filter_cons_of_pos (by simp [hp]), List.lookup_cons, List.lookup_cons, ih]

/-- Putting an entry changes what is at its location and nothing else. -/
theorem find?_put (disk : Disk) {location : Location} (hroot : location ≠ []) (entry : DiskEntry)
    (other : Location) :
    (disk.put location entry).find? other =
      if other = location then some entry else disk.find? other := by
  by_cases ho : other = location
  · subst ho
    simp [find?, put, hroot]
  · have hb : (other == location) = false := by simpa using ho
    simp [find?, put, List.lookup_cons, ho, hb, lookup_filter_ne ho]

/-- How many bytes a name may have. -/
def nameLimit : Nat := 255

/-- How many bytes a path may have. -/
def pathLimit : Nat := 4095

/-- Looks up what lies at a location. -/
def lookUp (disk : Disk) (location : Location) : Except FileError (Option DiskEntry) :=
  if location.getLast?.any (nameLimit < ·.utf8ByteSize) then .error .nameTooLong
  else .ok (disk.find? location)

/-- Goes from a location, which must be a directory, along one segment of a path. -/
def enter (disk : Disk) (location : Location) (segment : String) : Except FileError Location := do
  match ← disk.lookUp location with
  | none => throw .notFound
  | some (.file _) => throw .notDirectory
  | some .directory =>
    if segment = "." then return location
    else if segment = ".." then return location.dropLast
    else return location ++ [segment]

/-- The location of a path, at which there need not be anything. -/
def locate (disk : Disk) (path : Path) : Except FileError Location :=
  if pathLimit < path.utf8ByteSize then .error .nameTooLong
  else
    let start := if path.isAbsolute then [] else disk.workingDirectory
    path.segments.foldlM disk.enter start

/-- The location of a path whose last slash asks for a directory. -/
def locateExisting (disk : Disk) (path : Path) : Except FileError Location := do
  let location ← disk.locate path
  if path.endsWithSlash then disk.enter location "." else return location

def read (disk : Disk) (path : Path) : Except FileError ByteArray := do
  let location ← disk.locateExisting path
  match ← disk.lookUp location with
  | none => throw .notFound
  | some .directory => throw .isDirectory
  | some (.file content) => return content

def isDirectory (disk : Disk) (path : Path) : Bool :=
  match (disk.locateExisting path).toOption.bind disk.find? with
  | some .directory => true
  | _ => false

/-- The disk with a file written. A last slash names a directory, whether it exists or not. -/
def write (disk : Disk) (path : Path) (content : ByteArray) : Except FileError Disk := do
  let location ← disk.locate path
  if path.endsWithSlash then throw .isDirectory
  match ← disk.lookUp location with
  | some .directory => throw .isDirectory
  | _ => return disk.put location (.file content)

/-- The disk with one more directory. -/
def makeDirectory (disk : Disk) (path : Path) : Except FileError Disk := do
  let location ← disk.locate path
  match ← disk.lookUp location with
  | some _ => throw .alreadyExists
  | none => return disk.put location .directory

/-- Makes a directory, where another one that is there already will do. -/
def ensureDirectory (disk : Disk) (path : Path) : Except FileError Unit × Disk :=
  match disk.makeDirectory path with
  | .ok made => (.ok (), made)
  | .error cause => (if disk.isDirectory path then .ok () else .error cause, disk)

/-- Makes a directory, and the one it lies in if that is what is missing. -/
def createDirectories (disk : Disk) (path : Path) : Except FileError Unit × Disk :=
  if path = "" then (.ok (), disk)
  else
    match disk.makeDirectory path, h : path.parent? with
    | .error .notFound, some parent =>
      have := Path.length_parent?_lt h
      match disk.createDirectories parent with
      | (.ok _, disk) => disk.ensureDirectory path
      | failed => failed
    | _, _ => disk.ensureDirectory path
termination_by path.toList.length

end Disk

/-- The storage of a computation that changes a disk. -/
instance : Storage (StateM Disk) where
  read path := fun disk => (disk.read path, disk)
  write path content := fun disk =>
    match disk.write path content with
    | .ok written => (.ok (), written)
    | .error cause => (.error cause, disk)
  createDirectories path := fun disk => disk.createDirectories path

end Chiptune
