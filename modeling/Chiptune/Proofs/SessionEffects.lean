import Chiptune.Proofs.ControlSurface
import Chiptune.Proofs.LawfulStorage
import Chiptune.Proofs.SettingsFile
import Chiptune.Session.Basic

/-!
# What a session leaves

`Course` says how a session can go on a storage that keeps a disk: it has
nothing to record and leaves everything as it is, or it fails to record, or it
records and then keeps its settings. What it records has a deck that starts at
the volume of the session. A session that shall not keep settings never looks
for them, so it overlooks what the settings file holds.
-/
namespace Chiptune.Session

open Disk (Changes)
open Storage (run_bind)

/-! ### Preparing -/

/-- The volume of a session: the one that the options set, or else that of the settings file. -/
def volumeOf (surroundings : Surroundings) (options : Options) (shown : Disk) : Percent :=
  options.volume.getD
    (if options.noConfig then Settings.standardVolume
      else (Settings.ofFile (shown.read surroundings.settingsPath)).volume)

/-- What a session would record. -/
def prepared (surroundings : Surroundings) (options : Options) (shown : Disk) :
    Except Failure Recorder :=
  prepare options { volume := volumeOf surroundings options shown } (shown.read options.album)

section

variable {options : Options} {settings : Settings} {album : Album}

/-- What a session records is a deck with its album, and where to it was told to. -/
theorem prepare_eq_ok_iff {file : Except FileError ByteArray} {recorder : Recorder} :
    prepare options settings file = .ok recorder ↔
      ∃ album, loadAlbum options.album file = .ok album ∧ options.wave = some recorder.path ∧
        startDeck options settings album = .ok recorder.deck := by
  rw [prepare, bind_eq_ok_iff]
  refine exists_congr fun album => and_congr_right fun _ => ?_
  cases options.wave with
  | none =>
    constructor
    · intro h
      contradiction
    · rintro ⟨h, -⟩
      contradiction
  | some path =>
    rw [bind_eq_ok_iff]
    constructor
    · rintro ⟨deck, hdeck, hrecorder⟩
      obtain rfl := Except.ok.inj hrecorder
      exact ⟨rfl, hdeck⟩
    · rintro ⟨hpath, hdeck⟩
      obtain rfl := Option.some.inj hpath
      exact ⟨recorder.deck, hdeck, rfl⟩

end

/-! ### Recording -/

section

variable {σ : Type} [Storage (StateM σ)] (disk : σ → Disk) [LawfulStorage disk]

/-- What a recording comes to: how many frames it has if it succeeds, and what it leaves. -/
structure Exports (options : Options) (recorder : Recorder) (state : σ)
    (result : Except Ending ℕ) (exported : σ) : Prop where
  changes : Changes {(disk state).place recorder.path} (disk state) (disk exported)
  failed (ending : Ending) : result = .error ending → ending ≠ .success
  recorded (count : ℕ) : result = .ok count →
    ∃ frames rest recording, recorder.deck.record options.frames = .ok (frames, rest) ∧
      Wave.encode? options.sampleRate frames = some recording ∧
        (disk exported).read recorder.path = .ok recording

/-- The journal after a recording. -/
def recordedJournal (options : Options) (recorder : Recorder) (journal : Log.Journal) (count : ℕ) :
    Log.Journal :=
  (watch options recorder.deck journal).add [.recorded count recorder.path]

/-- How a session ends, and the storage that it leaves. -/
inductive Course (surroundings : Surroundings) (options : Options) (state : σ) :
    Ending → σ → Prop where
  | unprepared {failure : Failure}
    (hprepared : prepared surroundings options (disk state) = .error failure) :
    Course surroundings options state (.failed failure) state
  | unrecorded {recorder : Recorder} {ending : Ending} {exported : σ}
    (hprepared : prepared surroundings options (disk state) = .ok recorder)
    (hexports : Exports disk options recorder state (.error ending) exported) :
    Course surroundings options state ending exported
  | recorded {recorder : Recorder} {count : ℕ} {exported : σ}
    (hprepared : prepared surroundings options (disk state) = .ok recorder)
    (hexports : Exports disk options recorder state (.ok count) exported)
    (hrecord : ∀ journal, (record (m := StateM σ) options recorder journal).run state =
      (.ok (recordedJournal options recorder journal count), exported)) :
    Course surroundings options state .success
      ((saveSettings (m := StateM σ) surroundings options
        { volume := volumeOf surroundings options (disk state) }).run exported).2

end

/-! ### Without a settings file -/

section

variable {σ : Type} [Storage (StateM σ)] {surroundings : Surroundings} {options : Options}

theorem loadSettings_of_noConfig (h : options.noConfig = true) :
    loadSettings (m := StateM σ) surroundings options = pure {} := if_pos h

theorem saveSettings_of_noConfig (h : options.noConfig = true) (settings : Settings) :
    saveSettings (m := StateM σ) surroundings options settings = pure [] := if_pos h

open Storage (Overlooks UnseenEdit)

variable {disk : σ → Disk} {location : Location} {edit : σ → σ} {state : σ}

theorem overlooks_recordTo {recorder : Recorder} (hedit : UnseenEdit disk location edit)
    (h : (disk state).place recorder.path ≠ location) (journal : Log.Journal) :
    Overlooks edit
      (recordTo (m := StateM σ) recorder.path options recorder.deck journal) state := by
  unfold recordTo
  split
  · exact .pure _ _
  · refine (hedit.overlooks_writeAt h _).bind ?_
    split <;> exact .pure _ _

theorem overlooks_record [LawfulStorage disk] {recorder : Recorder}
    (hedit : UnseenEdit disk location edit) (h : (disk state).place recorder.path ≠ location)
    (journal : Log.Journal) :
    Overlooks edit (record (m := StateM σ) options recorder journal) state := by
  have hstore := Storage.changes_store disk recorder.path .empty state
  refine (hedit.overlooks_store h .empty).bind ?_
  split
  · exact .pure _ _
  · exact overlooks_recordTo hedit (by rwa [hstore.place_eq]) journal

/-- Such a session overlooks what is edited away from its album and its recording. -/
theorem overlooks_play [LawfulStorage disk] (hnoConfig : options.noConfig = true)
    (hedit : UnseenEdit disk location edit)
    (halbum : (disk state).place options.album ≠ location)
    (hwave : ∀ wave ∈ options.wave, (disk state).place wave ≠ location) :
    Overlooks edit (play (m := StateM σ) surroundings options) state := by
  unfold play
  simp only [loadSettings_of_noConfig hnoConfig, saveSettings_of_noConfig hnoConfig]
  refine (Overlooks.pure _ _).bind ((hedit.read options.album state halbum).bind ?_)
  split
  · exact .pure _ _
  · rename_i recorder hprepare
    obtain ⟨-, -, hpath, -⟩ := prepare_eq_ok_iff.mp hprepare
    rw [Storage.run_read disk]
    refine (overlooks_record hedit (hwave _ hpath) _).bind ?_
    split
    · exact .pure _ _
    · exact (Overlooks.pure _ _).bind (.pure _ _)

end

end Chiptune.Session
