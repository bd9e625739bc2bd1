import Chiptune.Proofs.DeckRun

/-!
# A restart forgets

A restart does not build a deck anew. It clears the sound unit, the cells, the
processor and the timer one after the other, so that whatever it left out would
carry over from one track to the next. What it does leave is
`Memory.fixed`: the image, the sample rates and the settings of the user. No
music driver can change these, so decks with the same settings are the same deck
after a restart, however they got there.
-/
namespace Chiptune

/-! ### What running leaves alone -/

/-- The parts of a memory that neither a music driver nor a restart changes. -/
structure Memory.Fixed where
  rom : Album.Rom
  soundRate : UInt32
  muted : Vector Bool 4
  masterVolume : Float32
  tickRate : UInt32
  speed : Float32

namespace Memory

def fixed (memory : Memory) : Fixed where
  rom := memory.rom
  soundRate := memory.sound.sampleRate
  muted := memory.sound.muted
  masterVolume := memory.sound.masterVolume
  tickRate := memory.rate.sampleRate
  speed := memory.rate.speed

theorem fixed_write (memory : Memory) (address : UInt16) (value : UInt8) :
    (memory.write address value).fixed = memory.fixed := by
  simp only [write]
  split
  · rfl
  · simp only [selectBank]
    split <;> rfl
  · simp only [TickRate.write]
    split
    · split <;> rfl
    · rfl
  · simp only [SoundUnit.write]
    cases Sound.Register.ofAddress address <;> rfl
  · rfl

theorem Ran.fixed_eq {start memory : Memory} (h : start.Ran memory) :
    memory.fixed = start.fixed := by
  induction h with
  | start => rfl
  | write _ address value ih => exact (fixed_write _ address value).trans ih
  | play _ frames ih => exact ih

end Memory

namespace Deck

open Album (Header)

/-! ### What a restart clears -/

/-- The interrupt enable register is plain memory. -/
theorem write_interrupts (memory : Memory) (value : UInt8) :
    memory.write 0xFFFF value = { memory with cells := memory.cells.set 0xFFFF value } := by
  have hregion : Region.ofAddress 0xFFFF = .plain := by decide
  simp only [Memory.write, hregion]

/-- Until the sound registers are written, nothing is left of a memory but its fixed parts. -/
theorem timedMemory_eq_of_fixed {a b : Memory} (header : Header) (h : a.fixed = b.fixed) :
    timedMemory header a = timedMemory header b := by
  simp only [Memory.fixed, Memory.Fixed.mk.injEq] at h
  obtain ⟨hrom, hsound, hmuted, hvolume, hrate, hspeed⟩ := h
  have hreset : a.sound.reset = b.sound.reset := by
    simp only [SoundUnit.reset, hsound, hmuted, hvolume]
  have htimer : a.rate.setTimer header.timerModulo header.timerControl =
      b.rate.setTimer header.timerModulo header.timerControl := by
    simp only [TickRate.setTimer, TickRate.recompute, hrate, hspeed]
  simp only [timedMemory, clearedMemory_eq, write_interrupts, hrom, hreset, htimer]

theorem initMemory_eq_of_fixed {a b : Memory} (header : Header) (h : a.fixed = b.fixed) :
    initMemory header a = initMemory header b := by
  simp only [initMemory, timedMemory_eq_of_fixed header h]

theorem fixed_initMemory (header : Header) (memory : Memory) :
    (initMemory header memory).fixed = memory.fixed := by
  rw [(ran_initMemory header memory).fixed_eq, timedMemory, clearedMemory_eq, write_interrupts]
  rfl

/-! ### The settings of the user -/

/-- What the user has set. -/
structure Settings where
  muted : Vector Bool 4
  volume : Float32
  speed : Float32
  paused : Bool
  deriving DecidableEq

def settings (deck : Deck) : Settings where
  muted := deck.memory.sound.muted
  volume := deck.volume
  speed := deck.speed
  paused := deck.paused

/-- The actions that set up a deck that is not paused. -/
def setUp (settings : Settings) : List Action :=
  (List.finRange 4).map (fun channel => .setMuted channel (settings.muted.get channel))
    ++ [.setVolume settings.volume, .setSpeed settings.speed]
    ++ if settings.paused then [.togglePause] else []

/-- A restart keeps what the user has set. -/
theorem settings_restart (deck : Deck) : (restart deck).settings = deck.settings := by
  have h := fixed_initMemory deck.album.header deck.memory
  simp only [Memory.fixed, Memory.Fixed.mk.injEq] at h
  obtain ⟨-, -, hmuted, hvolume, -, hspeed⟩ := h
  simp only [settings, restart, volume, speed, hmuted, hvolume, hspeed]

/-- Setting some channels leaves the other ones and the other settings alone. -/
theorem settings_setMuted (deck : Deck) (channels : List (Fin 4)) (wanted : Vector Bool 4) :
    let next := deck.afterAll (channels.map fun channel => .setMuted channel (wanted.get channel))
    next.settings = { deck.settings with muted := next.settings.muted } ∧
      ∀ i, next.settings.muted.get i =
        if i ∈ channels then wanted.get i else deck.settings.muted.get i := by
  induction channels generalizing deck with
  | nil => exact ⟨rfl, fun i => rfl⟩
  | cons channel rest ih =>
    obtain ⟨hsettings, hmuted⟩ := ih (deck.setMuted channel (wanted.get channel))
    refine ⟨hsettings, fun i => (hmuted i).trans ?_⟩
    have hset : (deck.setMuted channel (wanted.get channel)).settings.muted.get i =
        if channel = i then wanted.get channel else deck.settings.muted.get i := by
      show (deck.settings.muted.set channel (wanted.get channel)).get i = _
      simp only [Vector.get_eq_getElem, Vector.getElem_set, Fin.val_inj]
    by_cases hrest : i ∈ rest
    · rw [if_pos hrest, if_pos (List.mem_cons_of_mem _ hrest)]
    · by_cases hi : channel = i
      · subst channel
        rw [if_neg hrest, if_pos List.mem_cons_self, hset, if_pos rfl]
      · have hcons : i ∉ channel :: rest := by
          intro hmem
          cases hmem with
          | head => exact hi rfl
          | tail _ hmem => exact hrest hmem
        rw [if_neg hrest, if_neg hcons, hset, if_neg hi]

theorem settings_setAllMuted (deck : Deck) (wanted : Vector Bool 4) :
    (deck.afterAll ((List.finRange 4).map fun channel =>
        .setMuted channel (wanted.get channel))).settings =
      { deck.settings with muted := wanted } := by
  obtain ⟨hsettings, hmuted⟩ := deck.settings_setMuted (List.finRange 4) wanted
  generalize Deck.settings _ = next at hsettings hmuted ⊢
  have hall : next.muted = wanted := by
    apply Vector.ext
    intro i hi
    have hentry := hmuted ⟨i, hi⟩
    rw [if_pos (List.mem_finRange _)] at hentry
    exact hentry
  rw [hsettings, hall]

theorem settings_setLevels (deck : Deck) (volume speed : Float32) :
    (deck.afterAll [.setVolume volume, .setSpeed speed]).settings =
      { deck.settings with
        volume := SoundUnit.clampVolume volume, speed := TickRate.clampSpeed speed } := by
  rfl

theorem settings_pauseIf (deck : Deck) (paused : Bool) (hpaused : deck.paused = false) :
    (deck.afterAll (if paused then [.togglePause] else [])).settings =
      { deck.settings with paused } := by
  cases paused with
  | true =>
    have htoggled : (deck.afterAll [.togglePause]).settings =
        { deck.settings with paused := !deck.paused } := rfl
    rw [if_pos rfl, htoggled, hpaused]
    rfl
  | false =>
    rw [if_neg Bool.false_ne_true, ← hpaused]
    rfl

/-- A deck that is not paused takes on the settings that it is set up with. -/
theorem settings_setUp {deck : Deck} {wanted : Settings} (hpaused : deck.paused = false)
    (hvolume : SoundUnit.clampVolume wanted.volume = wanted.volume)
    (hspeed : TickRate.clampSpeed wanted.speed = wanted.speed) :
    (deck.afterAll (setUp wanted)).settings = wanted := by
  have hmuted := deck.settings_setAllMuted wanted.muted
  rw [setUp, afterAll_append, afterAll_append]
  generalize deck.afterAll _ = audible at hmuted ⊢
  have hlevels := audible.settings_setLevels wanted.volume wanted.speed
  rw [hmuted, hvolume, hspeed] at hlevels
  generalize audible.afterAll _ = level at hlevels ⊢
  have hrunning : level.paused = false := (congrArg Settings.paused hlevels).trans hpaused
  rw [settings_pauseIf level wanted.paused hrunning, hlevels]

/-! ### What is settled about a deck -/

theorem clampVolume_clampVolume (volume : Float32) :
    SoundUnit.clampVolume (SoundUnit.clampVolume volume) = SoundUnit.clampVolume volume := by
  by_cases hlow : volume < 0.0
  · simp only [SoundUnit.clampVolume, if_pos hlow]
    decide
  · by_cases hhigh : volume > 1.0
    · simp only [SoundUnit.clampVolume, if_neg hlow, if_pos hhigh]
      decide
    · simp only [SoundUnit.clampVolume, if_neg hlow, if_neg hhigh]

theorem clampSpeed_clampSpeed (speed : Float32) :
    TickRate.clampSpeed (TickRate.clampSpeed speed) = TickRate.clampSpeed speed := by
  by_cases hlow : speed < TickRate.slowest
  · simp only [TickRate.clampSpeed, if_pos hlow]
    decide
  · by_cases hhigh : TickRate.fastest < speed
    · simp only [TickRate.clampSpeed, if_neg hlow, if_pos hhigh]
      decide
    · simp only [TickRate.clampSpeed, if_neg hlow, if_neg hhigh]

/-- The settings of a deck are within their limits and the rest of its fixed parts are those of the
album and the configuration. -/
structure Settled (album : Album) (config : Config) (fixed : Memory.Fixed) : Prop where
  rom_eq : fixed.rom = album.rom
  soundRate_eq : fixed.soundRate = config.sampleRate
  tickRate_eq : fixed.tickRate = config.sampleRate
  volume_eq : SoundUnit.clampVolume fixed.masterVolume = fixed.masterVolume
  speed_eq : TickRate.clampSpeed fixed.speed = fixed.speed

theorem settled_blankMemory (album : Album) (config : Config) :
    Settled album config (blankMemory album config).fixed where
  rom_eq := rfl
  soundRate_eq := rfl
  tickRate_eq := rfl
  volume_eq := clampVolume_clampVolume config.volume
  speed_eq := clampSpeed_clampSpeed config.speed

theorem Moved.settled {album : Album} {config : Config} {deck next : Deck}
    (hmoved : deck.Moved next) (h : Settled album config deck.memory.fixed) :
    Settled album config next.memory.fixed := by
  cases hmoved with
  | ran hran =>
    obtain ⟨cpu, memory, hmemory, rfl⟩ := hran
    rw [← hmemory.fixed_eq] at h
    exact h
  | began hlt =>
    show Settled album config (initMemory deck.album.header deck.memory).fixed
    rw [fixed_initMemory]
    exact h
  | paused | muted => exact ⟨h.rom_eq, h.soundRate_eq, h.tickRate_eq, h.volume_eq, h.speed_eq⟩
  | volume volume =>
    exact ⟨h.rom_eq, h.soundRate_eq, h.tickRate_eq, clampVolume_clampVolume volume, h.speed_eq⟩
  | speed speed =>
    exact ⟨h.rom_eq, h.soundRate_eq, h.tickRate_eq, h.volume_eq, clampSpeed_clampSpeed speed⟩

theorem Reached.settled {album : Album} {config : Config} {deck : Deck}
    (h : Reached album config deck) : Settled album config deck.memory.fixed := by
  refine h.induction (P := fun deck => Settled album config deck.memory.fixed) ?_ ?_
  · show Settled album config (initMemory album.header (blankMemory album config)).fixed
    rw [fixed_initMemory]
    exact settled_blankMemory album config
  · intro deck next _ hmoved h
    exact hmoved.settled h

/-! ### A track from any past -/

section

variable {album : Album} {config : Config} {a b : Deck}

theorem Reached.exists_new (ha : Reached album config a) :
    ∃ fresh, Deck.new album config = .ok fresh := by
  obtain ⟨fresh, _, hnew, _⟩ := ha
  exact ⟨fresh, hnew⟩

theorem Reached.trackCount_pos (ha : Reached album config a) : 0 < a.trackCount := by
  have hlt := ha.plays.track_lt
  rw [← ha.plays.album_eq] at hlt
  exact Nat.zero_lt_of_lt hlt

theorem Reached.fixed_eq (ha : Reached album config a) (hb : Reached album config b)
    (hsettings : a.settings = b.settings) : a.memory.fixed = b.memory.fixed := by
  have hfixedA := ha.settled
  have hfixedB := hb.settled
  simp only [settings, Settings.mk.injEq] at hsettings
  obtain ⟨hmuted, hvolume, hspeed, -⟩ := hsettings
  have hrom := hfixedA.rom_eq.trans hfixedB.rom_eq.symm
  have hsound := hfixedA.soundRate_eq.trans hfixedB.soundRate_eq.symm
  have hrate := hfixedA.tickRate_eq.trans hfixedB.tickRate_eq.symm
  simp only [Memory.fixed, Memory.Fixed.mk.injEq]
  exact ⟨hrom, hsound, hmuted, hvolume, hrate, hspeed⟩

/-- Decks with the same settings begin a track in the same state. -/
theorem Reached.restart_eq (ha : Reached album config a) (hb : Reached album config b)
    (hsettings : a.settings = b.settings) (track : Nat) :
    restart { a with track } = restart { b with track } := by
  have halbum : a.album = b.album := ha.plays.album_eq.trans hb.plays.album_eq.symm
  have hconfig : a.config = b.config := ha.plays.config_eq.trans hb.plays.config_eq.symm
  have hpaused : a.paused = b.paused := congrArg Settings.paused hsettings
  have hmemory : initMemory b.album.header a.memory = initMemory b.album.header b.memory :=
    initMemory_eq_of_fixed _ (ha.fixed_eq hb hsettings)
  simp only [restart, halbum, hconfig, hpaused, hmemory]

theorem Reached.selectTrack_eq (ha : Reached album config a) (hb : Reached album config b)
    (hsettings : a.settings = b.settings) (track : Nat) :
    a.selectTrack track = b.selectTrack track := by
  have halbum : a.album = b.album := ha.plays.album_eq.trans hb.plays.album_eq.symm
  have hcount : a.trackCount = b.trackCount := by rw [trackCount, trackCount, halbum]
  by_cases hlt : track < b.trackCount
  · rw [selectTrack_of_lt hlt, selectTrack_of_lt (hcount ▸ hlt), ha.restart_eq hb hsettings track]
  · have hle : b.trackCount ≤ track := Nat.not_lt.mp hlt
    rw [selectTrack_of_le hle, selectTrack_of_le (hcount ▸ hle), hcount]

/-- Of two tracks begun one after the other, the second one remains. -/
theorem restart_track (deck : Deck) (first second : Nat) :
    restart { restart { deck with track := first } with track := second } =
      restart { deck with track := second } := by
  have hmemory : initMemory deck.album.header (initMemory deck.album.header deck.memory) =
      initMemory deck.album.header deck.memory :=
    initMemory_eq_of_fixed _ (fixed_initMemory _ _)
  simp only [restart, hmemory]

theorem restart_restart (deck : Deck) : restart (restart deck) = restart deck :=
  deck.restart_track deck.track deck.track

/-- A restart forgets what came before it. Decks of one album that play the same track with the same
settings are the same deck after a restart, so nothing tells them apart from then on. A track that
is begun from anywhere is the track begun on a new deck with the same settings. -/
theorem Reached.restart_forgets (ha : Reached album config a) (hb : Reached album config b)
    (htrack : a.track = b.track) (hsettings : a.settings = b.settings) :
    restart a = restart b ∧
      (∀ actions, (restart a).answers actions = (restart b).answers actions ∧
        (restart a).afterAll actions = (restart b).afterAll actions) ∧
      restart (restart a) = restart a ∧
      ∃ fresh, Deck.new album config = .ok fresh ∧
        let prepared := fresh.afterAll (setUp a.settings)
        prepared.settings = a.settings ∧
          (∀ track, a.selectTrack track = prepared.selectTrack track) ∧
          prepared.selectTrack a.nextTrack.track = .ok a.nextTrack ∧
          prepared.selectTrack a.previousTrack.track = .ok a.previousTrack := by
  have hrestart : restart a = restart b := by
    have h := ha.restart_eq hb hsettings a.track
    rw [htrack] at h
    have ha' : a = { a with track := b.track } := by rw [← htrack]
    rw [ha']
    exact h
  refine ⟨hrestart, fun actions => ?_, restart_restart a, ?_⟩
  · rw [hrestart]
    exact ⟨rfl, rfl⟩
  obtain ⟨fresh, hnew⟩ := ha.exists_new
  have hfresh : Reached album config fresh := ⟨fresh, [], hnew, rfl⟩
  have hprepared : Reached album config (fresh.afterAll (setUp a.settings)) :=
    hfresh.afterAll (setUp a.settings)
  have hunpaused : fresh.paused = false := by
    rw [(new_eq_ok hnew).2]
    rfl
  have hset : (fresh.afterAll (setUp a.settings)).settings = a.settings :=
    settings_setUp hunpaused ha.settled.volume_eq ha.settled.speed_eq
  have hselect := fun track => ha.selectTrack_eq hprepared hset.symm track
  refine ⟨fresh, hnew, hset, hselect, ?_, ?_⟩
  · rw [← hselect]
    exact selectTrack_of_lt (Nat.mod_lt _ ha.trackCount_pos)
  · rw [← hselect]
    exact selectTrack_of_lt (Nat.mod_lt _ ha.trackCount_pos)

end

/-- A driver with two tracks that loads into the window of its first bank. -/
def pairedAlbum : Album where
  header :=
    { version := 1
      trackTotal := 2
      startTrack := 1
      loadAddress := 0x4000
      initAddress := 0x4000
      playAddress := 0x4003
      stackPointer := 0xFFFE
      timerModulo := 0x80
      timerControl := 0x04
      title := "Pair"
      author := ""
      copyright := "" }
  rom := (Album.Rom.blank.put 1 .empty).put 2 .empty

def pairedDeck : Deck := restart (unstarted pairedAlbum {})

/-- A deck whose driver has changed the timer, a sound register, a cell and the window has the same
future after a restart as one that went to the other track and back. -/
theorem restart_forgets_pairedDeck :
    let a := pairedDeck.afterAll
      [.poke 0xFF06 0x40, .poke 0xFF12 0xF3, .poke 0xC000 0x12, .poke 0x2000 0x02]
    let b := pairedDeck.afterAll [.select 1, .setVolume 0.5, .previous, .setVolume 1.0]
    a.memory.bank = 2 ∧ b.memory.bank = 1 ∧ restart a = restart b ∧
      ∀ actions, (restart a).answers actions = (restart b).answers actions := by
  intro a b
  have hnew : Deck.new pairedAlbum {} = .ok pairedDeck := rfl
  have ha : Reached pairedAlbum {} a := ⟨pairedDeck, _, hnew, rfl⟩
  have hb : Reached pairedAlbum {} b := ⟨pairedDeck, _, hnew, rfl⟩
  have htrack : a.track = b.track := by decide +kernel
  have hsettings : a.settings = b.settings := by decide +kernel
  obtain ⟨hrestart, hfuture, -⟩ := Reached.restart_forgets ha hb htrack hsettings
  exact ⟨by decide +kernel, by decide +kernel, hrestart, fun actions => (hfuture actions).1⟩

end Deck
end Chiptune
