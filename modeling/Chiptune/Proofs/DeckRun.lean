import Chiptune.Deck.Basic
import Mathlib

/-!
# Runs of a deck

An action is anything that can be asked of a deck, and it has an answer. A deck
is reached when some run leads to it from the beginning of its start track.

The memory changes while a deck runs in two ways only: a byte is written, or the
sound unit plays. `Memory.Ran` is the closure of these, and `Deck.Moved` says
what an action does to a deck apart from its answer: it runs, it begins a track,
or it changes a setting of the user. The processor steps, is called, or begins a
track, so what these keep (`Cpu.Kept`) holds in every deck that is reached.
-/
namespace Chiptune

open Sound (Frame)

/-! ### Memory that runs -/

namespace Memory

/-- What running a music driver may make of a memory. -/
inductive Ran (start : Memory) : Memory → Prop where
  | start : Ran start start
  | write {memory : Memory} (h : Ran start memory) (address : UInt16) (value : UInt8) :
    Ran start (memory.write address value)
  | play {memory : Memory} (h : Ran start memory) (frames : Nat) :
    Ran start { memory with sound := (memory.sound.render frames).2 }

theorem Ran.trans {a b c : Memory} (hab : a.Ran b) (hbc : b.Ran c) : a.Ran c := by
  induction hbc with
  | start => exact hab
  | write _ address value ih => exact ih.write address value
  | play _ frames ih => exact ih.play frames

/-- The store of an instruction writes at most two bytes. -/
theorem ran_apply (memory : Memory) (store : Store) : memory.Ran (memory.apply store) := by
  cases store with
  | none => exact .start
  | byte address value => exact Ran.start.write address value
  | word address value =>
    exact (Ran.start.write address (Word.low value)).write (address + 1) (Word.high value)

theorem ran_writeAll (memory : Memory) (address : UInt16) (values : List UInt8) :
    memory.Ran (memory.writeAll address values) := by
  induction values generalizing memory address with
  | nil => exact .start
  | cons value rest ih => exact (Ran.start.write address value).trans (ih _ _)

end Memory

namespace Deck

open Album (Header)

theorem ran_runRoutine (rest : UInt16) (budget steps : Nat) (cpu : Cpu) (memory : Memory) :
    memory.Ran (runRoutine rest budget steps cpu memory).memory := by
  induction budget generalizing steps cpu memory with
  | zero => exact .start
  | succ budget ih =>
    simp only [runRoutine]
    split
    · exact .start
    · exact (memory.ran_apply _).trans (ih _ _ _)

theorem clearedMemory_eq (header : Header) (memory : Memory) :
    clearedMemory header memory =
      { cells :=
          (Cells.ofBanks (memory.rom.bankOrEmpty 0) (memory.rom.bankOrEmpty 1)).copyVectors
            header.loadAddress
        rom := memory.rom
        bank := 1
        sound := memory.sound.reset
        rate := memory.rate } := by
  rfl

/-- From the cleared memory with its timer on, a restart only writes. -/
theorem ran_initMemory (header : Header) (memory : Memory) :
    (timedMemory header memory).Ran (initMemory header memory) :=
  (Memory.ran_writeAll _ _ _).trans (Memory.ran_writeAll _ _ _)

/-! ### Actions -/

inductive Action where
  | step
  | frame
  | tick
  | render (frames : Nat)
  | poke (address : UInt16) (value : UInt8)
  | select (track : Nat)
  | next
  | previous
  | restart
  | togglePause
  | setMuted (channel : Fin 4) (muted : Bool)
  | toggleMute (channel : Fin 4)
  | setVolume (volume : Float32)
  | setSpeed (speed : Float32)
  | adjustSpeed (delta : Float32)

inductive Answer where
  | done
  | returned (taken : Bool)
  | outcome (outcome : FrameOutcome)
  | block (frames : Array Frame)
  /-- There is nothing to play. -/
  | silence
  | refused (error : AlbumError)
  | track (track : Nat)
  | paused (paused : Bool)
  | muted (muted : Bool)
  | speed (speed : Float32)
  deriving DecidableEq

/-- The answer to an action, and the deck after it. A track that is refused changes nothing. -/
def perform (deck : Deck) : Action → Answer × Deck
  | .step => (.returned deck.step.1, deck.step.2)
  | .frame => (.outcome deck.runFrame.1, deck.runFrame.2)
  | .tick =>
    match deck.playTick.1 with
    | some block => (.block block, deck.playTick.2)
    | none => (.silence, deck.playTick.2)
  | .render frames => (.block (deck.render frames).1, (deck.render frames).2)
  | .poke address value => (.done, deck.poke address value)
  | .select track =>
    match deck.selectTrack track with
    | .ok deck => (.track deck.track, deck)
    | .error error => (.refused error, deck)
  | .next => (.track deck.nextTrack.track, deck.nextTrack)
  | .previous => (.track deck.previousTrack.track, deck.previousTrack)
  | .restart => (.done, Deck.restart deck)
  | .togglePause => (.paused deck.togglePause.paused, deck.togglePause)
  | .setMuted channel muted => (.done, deck.setMuted channel muted)
  | .toggleMute channel =>
    (.muted ((deck.toggleMute channel).isMuted channel), deck.toggleMute channel)
  | .setVolume volume => (.done, deck.setVolume volume)
  | .setSpeed speed => (.done, deck.setSpeed speed)
  | .adjustSpeed delta => (.speed (deck.adjustSpeed delta).speed, deck.adjustSpeed delta)

def after (deck : Deck) (action : Action) : Deck := (deck.perform action).2

def afterAll (deck : Deck) (actions : List Action) : Deck := actions.foldl after deck

theorem afterAll_append (deck : Deck) (before actions : List Action) :
    deck.afterAll (before ++ actions) = (deck.afterAll before).afterAll actions := by
  simp only [afterAll, List.foldl_append]

/-- The answers to a run. -/
def answers : Deck → List Action → List Answer
  | _, [] => []
  | deck, action :: rest => (deck.perform action).1 :: (deck.after action).answers rest

/-- Some run leads to the deck from the beginning of the start track of its album. -/
def Reached (album : Album) (config : Config) (deck : Deck) : Prop :=
  ∃ start actions, Deck.new album config = .ok start ∧ start.afterAll actions = deck

theorem Reached.afterAll {album : Album} {config : Config} {deck : Deck}
    (h : Reached album config deck) (actions : List Action) :
    Reached album config (deck.afterAll actions) := by
  obtain ⟨start, before, hnew, rfl⟩ := h
  exact ⟨start, before ++ actions, hnew, afterAll_append start before actions⟩

/-! ### What an action does -/

/-- The deck has run on: only its processor and its memory have changed. -/
def RanTo (deck next : Deck) : Prop :=
  ∃ cpu memory, deck.memory.Ran memory ∧ next = { deck with cpu, memory }

theorem RanTo.refl (deck : Deck) : deck.RanTo deck := ⟨deck.cpu, deck.memory, .start, rfl⟩

theorem RanTo.trans {a b c : Deck} (hab : a.RanTo b) (hbc : b.RanTo c) : a.RanTo c := by
  obtain ⟨cpu, memory, hran, rfl⟩ := hab
  obtain ⟨cpu', memory', hran', rfl⟩ := hbc
  exact ⟨cpu', memory', hran.trans hran', rfl⟩

theorem ranTo_step (deck : Deck) : deck.RanTo deck.step.2 :=
  ⟨_, _, deck.memory.ran_apply _, rfl⟩

theorem ranTo_runFrame (deck : Deck) : deck.RanTo deck.runFrame.2 :=
  ⟨_, _, ran_runRoutine _ _ _ _ _, rfl⟩

theorem ranTo_render (deck : Deck) (frames : Nat) : deck.RanTo (deck.render frames).2 :=
  ⟨deck.cpu, _, Memory.Ran.start.play frames, rfl⟩

theorem ranTo_batch (share : Float32) (limit : Nat) (elapsed : Float32) (deck : Deck) :
    deck.RanTo (batch share limit elapsed deck) := by
  induction limit generalizing elapsed deck with
  | zero => exact .refl deck
  | succ limit ih =>
    simp only [batch]
    split
    · exact deck.ranTo_runFrame.trans (ih _ _)
    · exact .refl deck

theorem ranTo_advance (deck : Deck) : deck.RanTo deck.advance.2 := by
  simp only [advance]
  split
  · exact deck.ranTo_runFrame.trans (ranTo_batch _ _ _ _)
  · exact deck.ranTo_runFrame

theorem ranTo_playTick (deck : Deck) : deck.RanTo deck.playTick.2 := by
  simp only [playTick]
  split
  · exact .refl deck
  · exact deck.ranTo_advance.trans (ranTo_render _ _)

/-- What an action does to a deck: it runs, it begins a track, or a setting of the user changes. -/
inductive Moved (deck : Deck) : Deck → Prop where
  | ran {next : Deck} (h : deck.RanTo next) : Moved deck next
  | began {track : Nat} (h : track < deck.trackCount) : Moved deck (restart { deck with track })
  | paused (paused : Bool) : Moved deck { deck with paused }
  | muted (channel : Fin 4) (muted : Bool) : Moved deck (deck.setMuted channel muted)
  | volume (volume : Float32) : Moved deck (deck.setVolume volume)
  | speed (speed : Float32) : Moved deck (deck.setSpeed speed)

theorem selectTrack_of_lt {deck : Deck} {track : Nat} (h : track < deck.trackCount) :
    deck.selectTrack track = .ok (restart { deck with track }) := by
  have h : track < deck.album.header.trackCount := h
  simp only [selectTrack, Album.Header.checkTrack, if_pos h]
  rfl

theorem selectTrack_of_le {deck : Deck} {track : Nat} (h : deck.trackCount ≤ track) :
    deck.selectTrack track = .error (.trackOutOfRange track deck.trackCount) := by
  have hlt : ¬ track < deck.album.header.trackCount := Nat.not_lt.mpr h
  simp only [selectTrack, Album.Header.checkTrack, if_neg hlt]
  rfl

theorem after_tick (deck : Deck) : deck.after .tick = deck.playTick.2 := by
  simp only [after, perform]
  split <;> rfl

theorem moved_after (deck : Deck) (h : deck.track < deck.trackCount) (action : Action) :
    deck.Moved (deck.after action) := by
  have hcount : 0 < deck.trackCount := by omega
  cases action with
  | step => exact .ran deck.ranTo_step
  | frame => exact .ran deck.ranTo_runFrame
  | tick =>
    rw [after_tick]
    exact .ran deck.ranTo_playTick
  | render frames => exact .ran (deck.ranTo_render frames)
  | poke address value => exact .ran ⟨deck.cpu, _, Memory.Ran.start.write address value, rfl⟩
  | select track =>
    by_cases hlt : track < deck.trackCount
    · simp only [after, perform, selectTrack_of_lt hlt]
      exact .began hlt
    · simp only [after, perform, selectTrack_of_le (Nat.not_lt.mp hlt)]
      exact .ran (.refl deck)
  | next => exact .began (Nat.mod_lt _ hcount)
  | previous => exact .began (Nat.mod_lt _ hcount)
  | restart => exact .began h
  | togglePause => exact .paused _
  | setMuted channel muted => exact .muted channel muted
  | toggleMute channel => exact .muted channel _
  | setVolume volume => exact .volume volume
  | setSpeed speed => exact .speed speed
  | adjustSpeed delta => exact .speed _

/-- The beginning of the start track is where every run begins. -/
theorem new_eq_ok {album : Album} {config : Config} {start : Deck}
    (h : Deck.new album config = .ok start) :
    firstTrack album < album.header.trackCount ∧ start = restart (unstarted album config) := by
  by_cases hlt : firstTrack album < album.header.trackCount
  · simp only [new, Album.Header.checkTrack, if_pos hlt] at h
    exact ⟨hlt, (Except.ok.inj h).symm⟩
  · simp only [new, Album.Header.checkTrack, if_neg hlt] at h
    contradiction

/-- The deck plays a track that the album has. -/
structure Plays (album : Album) (config : Config) (deck : Deck) : Prop where
  album_eq : deck.album = album
  config_eq : deck.config = config
  track_lt : deck.track < album.header.trackCount

theorem Moved.plays {album : Album} {config : Config} {deck next : Deck} (hmoved : deck.Moved next)
    (h : Plays album config deck) : Plays album config next := by
  obtain ⟨rfl, rfl, htrack⟩ := h
  cases hmoved with
  | ran hran =>
    obtain ⟨cpu, memory, _, rfl⟩ := hran
    exact ⟨rfl, rfl, htrack⟩
  | began hlt => exact ⟨rfl, rfl, hlt⟩
  | paused | muted | volume | speed => exact ⟨rfl, rfl, htrack⟩

/-- A fact that holds at the beginning of the start track and that every move keeps, holds of every
deck that is reached. -/
theorem Reached.induction {P : Deck → Prop} {album : Album} {config : Config} {deck : Deck}
    (h : Reached album config deck) (start : P (restart (unstarted album config)))
    (move : ∀ deck next, Plays album config deck → deck.Moved next → P deck → P next) : P deck := by
  obtain ⟨first, actions, hnew, rfl⟩ := h
  obtain ⟨htrack, rfl⟩ := new_eq_ok hnew
  have hplays : Plays album config (restart (unstarted album config)) := ⟨rfl, rfl, htrack⟩
  generalize restart (unstarted album config) = deck at start hplays
  clear hnew
  induction actions generalizing deck with
  | nil => exact start
  | cons action rest ih =>
    have htrack : deck.track < deck.trackCount := by
      rw [trackCount, hplays.album_eq]
      exact hplays.track_lt
    have hmoved := deck.moved_after htrack action
    exact ih _ (move _ _ hplays hmoved start) (hmoved.plays hplays)

theorem Reached.plays {album : Album} {config : Config} {deck : Deck}
    (h : Reached album config deck) : Plays album config deck := by
  obtain ⟨first, actions, hnew, hrun⟩ := h
  obtain ⟨htrack, hfirst⟩ := new_eq_ok hnew
  exact Reached.induction ⟨first, actions, hnew, hrun⟩ ⟨rfl, rfl, htrack⟩
    fun _ _ _ hmoved h => hmoved.plays h

end Deck

/-! ### The processor of a run -/

/-- A fact about the processor that every step keeps, calling the play routine keeps, and that is
true where an init routine begins. -/
structure Cpu.Kept (P : Cpu → Prop) : Prop where
  step : ∀ {cpu : Cpu} (memory : Memory), P cpu → P (cpu.step memory).cpu
  armed : ∀ {cpu : Cpu} (header : Album.Header), P cpu → P (Deck.armed header cpu)
  init : ∀ (header : Album.Header) (track : Nat), P (Deck.initCpu header track)

namespace Deck

variable {P : Cpu → Prop}

theorem runRoutine_kept (hP : Cpu.Kept P) (rest : UInt16) (budget steps : Nat) {cpu : Cpu}
    (h : P cpu) (memory : Memory) : P (runRoutine rest budget steps cpu memory).cpu := by
  induction budget generalizing steps cpu memory with
  | zero => exact h
  | succ budget ih =>
    simp only [runRoutine]
    by_cases hrest : cpu.registers.sp = rest
    · rw [if_pos hrest]
      exact h
    · rw [if_neg hrest]
      exact ih _ (hP.step memory h) _

theorem runFrame_kept (hP : Cpu.Kept P) {deck : Deck} (h : P deck.cpu) :
    P deck.runFrame.2.cpu := by
  have hrun := runRoutine_kept hP deck.album.header.stackPointer deck.config.stepBudget 0 h
    deck.memory
  simp only [runFrame]
  split
  · exact hP.armed _ hrun
  · exact hrun

theorem batch_kept (hP : Cpu.Kept P) (share : Float32) (limit : Nat) (elapsed : Float32)
    {deck : Deck} (h : P deck.cpu) : P (batch share limit elapsed deck).cpu := by
  induction limit generalizing elapsed deck with
  | zero => exact h
  | succ limit ih =>
    simp only [batch]
    split
    · exact ih _ (runFrame_kept hP h)
    · exact h

theorem playTick_kept (hP : Cpu.Kept P) {deck : Deck} (h : P deck.cpu) :
    P deck.playTick.2.cpu := by
  simp only [playTick, advance, render]
  split
  · exact h
  · split
    · exact batch_kept hP _ _ _ (runFrame_kept hP h)
    · exact runFrame_kept hP h

/-- The processor steps, is called, or begins a track; what else a deck does leaves it alone. -/
theorem after_kept (hP : Cpu.Kept P) {deck : Deck} (h : P deck.cpu) (action : Action) :
    P (deck.after action).cpu := by
  cases action with
  | step => exact hP.step deck.memory h
  | frame => exact runFrame_kept hP h
  | tick =>
    rw [after_tick]
    exact playTick_kept hP h
  | select track =>
    by_cases hlt : track < deck.trackCount
    · simp only [after, perform, selectTrack_of_lt hlt]
      exact hP.init _ _
    · simp only [after, perform, selectTrack_of_le (Nat.not_lt.mp hlt)]
      exact h
  | next | previous | restart => exact hP.init _ _
  | render | poke | togglePause | setMuted | toggleMute | setVolume | setSpeed | adjustSpeed =>
    exact h

theorem afterAll_kept (hP : Cpu.Kept P) (actions : List Action) {deck : Deck} (h : P deck.cpu) :
    P (deck.afterAll actions).cpu := by
  induction actions generalizing deck with
  | nil => exact h
  | cons action rest ih => exact ih (after_kept hP h action)

theorem Reached.kept (hP : Cpu.Kept P) {album : Album} {config : Config} {deck : Deck}
    (h : Reached album config deck) : P deck.cpu := by
  obtain ⟨start, actions, hnew, rfl⟩ := h
  obtain ⟨-, rfl⟩ := new_eq_ok hnew
  exact afterAll_kept hP actions (hP.init _ _)

end Deck
end Chiptune
