import Chiptune.Proofs.UnseenContent

/-!
# Storages that keep a disk

A storage is lawful for the disk that it shows if it reads what is on the disk,
makes directories without touching files, and writes no file but the one that it
is told to. It may fail where the disk would let it go on, and a file that it
failed to write may hold anything. Disks are such a storage, and so are disks
whose operations break off, at whatever points they do.
-/
namespace Chiptune

open Disk (Changes)

/-- The storage keeps its files on a disk. Files that cannot be read are not shown. -/
class LawfulStorage {σ : Type} [Storage (StateM σ)] (disk : σ → Disk) : Prop where
  read_eq (path : Path) (state : σ) :
    (Storage.read (m := StateM σ) path).run state = ((disk state).read path, state)
  changes_createDirectories (path : Path) (state : σ) :
    Changes ∅ (disk state) (disk ((Storage.createDirectories (m := StateM σ) path).run state).2)
  changes_write (path : Path) (content : ByteArray) (state : σ) :
    Changes {(disk state).place path} (disk state)
      (disk ((Storage.write (m := StateM σ) path content).run state).2)
  read_write (path : Path) (content : ByteArray) (state : σ) :
    ((Storage.write (m := StateM σ) path content).run state).1 = .ok () →
      (disk ((Storage.write (m := StateM σ) path content).run state).2).read path = .ok content

instance : LawfulStorage (id : Disk → Disk) where
  read_eq _ _ := rfl
  changes_createDirectories path disk := disk.changes_createDirectories path
  changes_write path content disk := by
    simp only [Storage.write, StateT.run]
    cases hwrite : disk.write path content with
    | error cause => exact .refl _ disk
    | ok written => exact Disk.changes_write hwrite
  read_write path content disk := by
    simp only [Storage.write, StateT.run]
    cases hwrite : disk.write path content with
    | error cause => exact fun h => nomatch h
    | ok written => exact fun _ => Disk.read_write hwrite

/-! ### Disks that fail -/

/-- A disk whose operations may break off. -/
structure FailingDisk where
  disk : Disk
  /-- For each write and each making of directories to come, after how many bytes it breaks off,
  if it does. -/
  failures : List (Option ℕ) := []

namespace FailingDisk

/-- After how many bytes the next operation breaks off, if it does. -/
def limit? (state : FailingDisk) : Option ℕ := state.failures.head?.join

/-- The result of an operation that the disk carries out. -/
def result (state : FailingDisk) : Except FileError Unit :=
  match state.limit? with
  | none => .ok ()
  | some _ => .error (.other "No space left on device (os error 28)")

/-- What is written of a content. -/
def partOf (state : FailingDisk) (content : ByteArray) : ByteArray :=
  match state.limit? with
  | none => content
  | some length => content.extract 0 length

/-- The state after an operation. -/
def next (state : FailingDisk) (disk : Disk) : FailingDisk :=
  { disk, failures := state.failures.tail }

instance : Storage (StateM FailingDisk) where
  read path := fun state => (state.disk.read path, state)
  write path content := fun state =>
    match state.disk.write path (state.partOf content) with
    | .ok written => (state.result, state.next written)
    | .error cause => (.error cause, state.next state.disk)
  createDirectories path := fun state =>
    match state.limit? with
    | none =>
      ((state.disk.createDirectories path).1, state.next (state.disk.createDirectories path).2)
    | some _ => (state.result, state.next state.disk)

instance : LawfulStorage FailingDisk.disk where
  read_eq _ _ := rfl
  changes_createDirectories path state := by
    simp only [Storage.createDirectories, StateT.run]
    cases state.limit? with
    | none => exact state.disk.changes_createDirectories path
    | some length => exact .refl _ state.disk
  changes_write path content state := by
    simp only [Storage.write, StateT.run]
    cases hwrite : state.disk.write path (state.partOf content) with
    | error cause => exact .refl _ state.disk
    | ok written => exact Disk.changes_write hwrite
  read_write path content state := by
    simp only [Storage.write, StateT.run]
    cases hwrite : state.disk.write path (state.partOf content) with
    | error cause => exact fun h => nomatch h
    | ok written =>
      intro hresult
      have hwhole : state.partOf content = content := by
        unfold partOf
        unfold result at hresult
        cases hlimit : state.limit? with
        | none => rfl
        | some length => simp [hlimit] at hresult
      rw [hwhole] at hwrite
      exact Disk.read_write hwrite

end FailingDisk

namespace Storage

variable {σ : Type}

theorem run_bind {α β : Type} (action : StateM σ α) (next : α → StateM σ β) (state : σ) :
    (action >>= next).run state = (next (action.run state).1).run (action.run state).2 := rfl

/-- The computation does the same after an edit, and the edit stays. -/
def Overlooks {α : Type} (edit : σ → σ) (action : StateM σ α) (state : σ) : Prop :=
  action.run (edit state) = (action.run state).map id edit

theorem Overlooks.pure {α : Type} {edit : σ → σ} (a : α) (state : σ) :
    Overlooks edit (Pure.pure a) state := rfl

theorem Overlooks.bind {α β : Type} {edit : σ → σ} {action : StateM σ α} {next : α → StateM σ β}
    {state : σ} (haction : Overlooks edit action state)
    (hnext : Overlooks edit (next (action.run state).1) (action.run state).2) :
    Overlooks edit (action >>= next) state := by
  rw [Overlooks, run_bind, haction, run_bind]
  exact hnext

variable [Storage (StateM σ)]

/-! ### Storing -/

theorem run_writeAt (path : Path) (content : ByteArray) (state : σ) :
    (writeAt (m := StateM σ) path content).run state =
      (((write (m := StateM σ) path content).run state).1.mapError (.file path),
        ((write (m := StateM σ) path content).run state).2) := by
  rw [writeAt, run_bind]
  cases ((write (m := StateM σ) path content).run state).1 <;> rfl

section

variable (disk : σ → Disk) [LawfulStorage disk]

theorem run_read (path : Path) (state : σ) :
    (read (m := StateM σ) path).run state = ((disk state).read path, state) :=
  LawfulStorage.read_eq path state

theorem changes_writeAt (path : Path) (content : ByteArray) (state : σ) :
    Changes {(disk state).place path} (disk state)
      (disk ((writeAt (m := StateM σ) path content).run state).2) := by
  rw [run_writeAt]
  exact LawfulStorage.changes_write path content state

/-- To store a file, directories are made and then it is written, unless it fails between. -/
theorem run_store (path : Path) (content : ByteArray) (state : σ) :
    ∃ prepared, Changes ∅ (disk state) (disk prepared) ∧
      ((store (m := StateM σ) path content).run state =
          (writeAt (m := StateM σ) path content).run prepared ∨
        ∃ parent cause, (store (m := StateM σ) path content).run state =
          (.error (.directory parent cause), prepared)) := by
  unfold store
  split
  · exact ⟨state, .refl ∅ _, .inl rfl⟩
  · exact ⟨state, .refl ∅ _, .inl rfl⟩
  · rename_i parent _ _
    refine ⟨_, LawfulStorage.changes_createDirectories parent state, ?_⟩
    rw [run_bind]
    cases ((createDirectories (m := StateM σ) parent).run state).1 with
    | ok _ => exact .inl rfl
    | error cause => exact .inr ⟨parent, cause, rfl⟩

/-- Storing a file changes no other one. -/
theorem changes_store (path : Path) (content : ByteArray) (state : σ) :
    Changes {(disk state).place path} (disk state)
      (disk ((store (m := StateM σ) path content).run state).2) := by
  obtain ⟨prepared, hprepared, hstore⟩ := run_store disk path content state
  have hmade := hprepared.mono (Set.empty_subset {(disk state).place path})
  obtain hstore | ⟨parent, cause, hstore⟩ := hstore
  · rw [hstore]
    refine hmade.trans ?_
    rw [← hprepared.place_eq path]
    exact changes_writeAt disk path content prepared
  · rw [hstore]
    exact hmade

end

/-! ### Edits that are not seen -/

/-- A change of the storage that shows only at one location. -/
structure UnseenEdit (disk : σ → Disk) (location : Location) (edit : σ → σ) : Prop where
  read (path : Path) (state : σ) :
    (disk state).place path ≠ location → Overlooks edit (read (m := StateM σ) path) state
  write (path : Path) (content : ByteArray) (state : σ) :
    (disk state).place path ≠ location → Overlooks edit (write (m := StateM σ) path content) state
  createDirectories (path : Path) (state : σ) :
    Overlooks edit (createDirectories (m := StateM σ) path) state

/-- On a disk, another content of a file is such a change. -/
theorem unseenEdit_refill (location : Location) (content : ByteArray) :
    UnseenEdit id location (Disk.refill · location content) where
  read path disk h := by
    have hread := disk.read_refill path location content h
    simp only [Overlooks, Storage.read, StateT.run, hread, Prod.map, id]
  write path data disk h := by
    simp only [Overlooks, Storage.write, StateT.run, disk.write_refill path location content h data]
    cases disk.write path data <;> rfl
  createDirectories path disk := disk.createDirectories_refill path location content

section

variable {disk : σ → Disk} {location : Location} {edit : σ → σ} {path : Path} {state : σ}

theorem UnseenEdit.overlooks_writeAt (hedit : UnseenEdit disk location edit)
    (h : (disk state).place path ≠ location) (content : ByteArray) :
    Overlooks edit (writeAt (m := StateM σ) path content) state := by
  refine (hedit.write path content state h).bind ?_
  split <;> exact .pure _ _

theorem UnseenEdit.overlooks_store [LawfulStorage disk] (hedit : UnseenEdit disk location edit)
    (h : (disk state).place path ≠ location) (content : ByteArray) :
    Overlooks edit (store (m := StateM σ) path content) state := by
  unfold store
  split
  · exact hedit.overlooks_writeAt h content
  · exact hedit.overlooks_writeAt h content
  · rename_i parent _ _
    refine (hedit.createDirectories parent state).bind ?_
    have hmade : Changes ∅ (disk state) _ := LawfulStorage.changes_createDirectories parent state
    split
    · exact hedit.overlooks_writeAt (by rwa [hmade.place_eq]) content
    · exact .pure _ _

end

end Storage
end Chiptune
