import Chiptune.Storage.FileError
import Chiptune.Storage.Path

/-!
# Storage

Where files are read from and written to. Storing a file makes the directory it
lies in first.
-/
namespace Chiptune

class Storage (m : Type → Type) where
  read : Path → m (Except FileError ByteArray)
  /-- Creates a file, or replaces its content. -/
  write : Path → ByteArray → m (Except FileError Unit)
  /-- Creates a directory and those it lies in, as far as they are missing. -/
  createDirectories : Path → m (Except FileError Unit)

/-- Why a file could not be stored. -/
inductive StoreError where
  /-- Its directory could not be created. -/
  | directory (path : Path) (cause : FileError)
  | file (path : Path) (cause : FileError)
  deriving DecidableEq, Repr

def StoreError.cause : StoreError → FileError
  | .directory _ cause => cause
  | .file _ cause => cause

namespace Storage

variable {m : Type → Type} [Monad m] [Storage m]

def writeAt (path : Path) (content : ByteArray) : m (Except StoreError Unit) := do
  match ← write path content with
  | .ok _ => return .ok ()
  | .error cause => return .error (.file path cause)

/-- Writes a file and creates its directory before that. A path without a directory part needs
none. -/
def store (path : Path) (content : ByteArray) : m (Except StoreError Unit) := do
  match path.parent? with
  | none | some "" => writeAt path content
  | some parent =>
    match ← createDirectories parent with
    | .ok _ => writeAt path content
    | .error cause => return .error (.directory parent cause)

end Storage
end Chiptune
