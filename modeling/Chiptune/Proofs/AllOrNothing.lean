import Chiptune.Proofs.SessionEffects

/-!
# All or nothing

A session that records to a file of its own either succeeds or leaves the
settings file as it was, whatever fails and whatever the storage does about it.
Without an album to play it does nothing at all. When it succeeds, the recording
is one of the album at the volume of the session, and the settings file holds
that volume if it can be stored. The next session finds it there and stores it
again, so the volume stays until another one is asked for.
-/
namespace Chiptune.Session

open Disk (Changes)
open Storage (Overlooks UnseenEdit)

/-- The settings file holds a volume. -/
def Holds (path : Path) (volume : Percent) (shown : Disk) : Prop :=
  shown.read path = .ok ({ volume } : Settings).content

instance (path : Path) (volume : Percent) (shown : Disk) : Decidable (Holds path volume shown) :=
  inferInstanceAs (Decidable (shown.read path = .ok ({ volume } : Settings).content))

theorem Holds.ofFile_eq {path : Path} {volume : Percent} {shown : Disk}
    (h : Holds path volume shown) :
    Settings.ofFile (shown.read path) = { volume } := by
  rw [h, Settings.ofFile_content]

variable {σ : Type} {disk : σ → Disk} {surroundings : Surroundings} {options : Options}
  {wave : Path} {state after exported : σ} {ending : Ending}

/-- A session records where it was told to. -/
theorem path_of_prepared {recorder : Recorder} {shown : Disk}
    (hprepared : prepared surroundings options shown = .ok recorder)
    (hwave : options.wave = some wave) : recorder.path = wave := by
  obtain ⟨-, -, hpath, -⟩ := prepare_eq_ok_iff.mp hprepared
  exact Option.some.inj (hpath.symm.trans hwave)

variable [Storage (StateM σ)]

namespace Course

/-- Unless it succeeds and keeps its settings, a session changes no file but its recording. -/
theorem changes (h : Course disk surroundings options state ending after)
    (hwave : options.wave = some wave) (hkeeps : ending ≠ .success ∨ options.noConfig = true) :
    Changes {(disk state).place wave} (disk state) (disk after) := by
  cases h with
  | unprepared _ => exact .refl _ _
  | unrecorded hprepared hexports =>
    rw [← path_of_prepared hprepared hwave]
    exact hexports.changes
  | recorded hprepared hexports _ =>
    rw [← path_of_prepared hprepared hwave,
      saveSettings_of_noConfig (hkeeps.resolve_left (not_not_intro rfl))]
    exact hexports.changes

end Course

variable [LawfulStorage disk]

theorem run_saveSettings (h : options.noConfig = false) (settings : Settings) (exported : σ) :
    ((saveSettings (m := StateM σ) surroundings options settings).run exported).2 =
      ((Storage.store (m := StateM σ) surroundings.settingsPath
        settings.content).run exported).2 := by
  simp only [saveSettings, h, Bool.false_eq_true, if_false, Storage.run_bind]
  split <;> rfl

/-- Keeping the settings changes no file but theirs. -/
theorem changes_saveSettings (settings : Settings) (exported : σ) :
    Changes {(disk exported).place surroundings.settingsPath} (disk exported)
      (disk ((saveSettings (m := StateM σ) surroundings options settings).run exported).2) := by
  cases h : options.noConfig with
  | true =>
    rw [saveSettings_of_noConfig h]
    exact .refl _ _
  | false =>
    rw [run_saveSettings h]
    exact Storage.changes_store disk surroundings.settingsPath settings.content exported

/-- No session goes to another working directory. -/
theorem Course.place_eq (h : Course disk surroundings options state ending after) (path : Path) :
    (disk after).place path = (disk state).place path := by
  cases h with
  | unprepared _ => rfl
  | unrecorded _ hexports => exact hexports.changes.place_eq path
  | recorded _ hexports _ =>
    rw [(changes_saveSettings _ _).place_eq, hexports.changes.place_eq]

section

variable {arguments : List String}

end

/-- What is edited in the settings file makes no difference to a session that shall not keep
settings, as long as the file is neither its album nor its recording. -/
theorem overlooks_run (disk : σ → Disk) [LawfulStorage disk] {arguments : List String}
    {edit : σ → σ} (hoptions : Options.parse? arguments = some options)
    (hwave : options.wave = some wave)
    (hother : (disk state).place wave ≠ (disk state).place surroundings.settingsPath)
    (hnoConfig : options.noConfig = true)
    (hedit : UnseenEdit disk ((disk state).place surroundings.settingsPath) edit)
    (halbum : (disk state).place options.album ≠ (disk state).place surroundings.settingsPath) :
    Overlooks edit (run (m := StateM σ) surroundings arguments) state := by
  simp only [run, hoptions]
  exact overlooks_play hnoConfig hedit halbum (by simpa [hwave] using hother)

/-- On a disk, such a session has the same outcome whatever the settings file holds. -/
theorem run_refill {disk : Disk} {arguments : List String}
    (hoptions : Options.parse? arguments = some options) (hwave : options.wave = some wave)
    (hother : disk.place wave ≠ disk.place surroundings.settingsPath)
    (hnoConfig : options.noConfig = true)
    (halbum : disk.place options.album ≠ disk.place surroundings.settingsPath)
    (content : ByteArray) :
    ((run (m := StateM Disk) surroundings arguments).run
        (disk.refill (disk.place surroundings.settingsPath) content)).1 =
      ((run (m := StateM Disk) surroundings arguments).run disk).1 := by
  have hover : Overlooks _ (run (m := StateM Disk) surroundings arguments) disk :=
    overlooks_run id hoptions hwave hother hnoConfig
      (Storage.unseenEdit_refill _ content) halbum
  exact (congrArg Prod.fst hover).trans rfl

end Chiptune.Session
