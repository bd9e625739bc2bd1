import Chiptune.Proofs.CheckedControl

/-!
# The control surface

While a deck plays, lines are typed, and those that are commands are carried out
between two ticks. Whatever the driver does in the meantime, every command has a
result, the track is one that the album has, and the settings of the user are
what the commands alone make of them: `Settings.heed` says how, one command
after the other, and the ticks, frames and restarts in between do not matter.
-/
namespace Chiptune

namespace Command

/-- What a command asks of a deck. -/
def actions : Command → List Deck.Action
  | .toggleMute channel => [.toggleMute channel]
  | .selectTrack track => [.select track]
  | .nextTrack => [.next]
  | .previousTrack => [.previous]
  | .togglePause => [.togglePause]
  | .volume percent => [.setVolume percent.part]
  | .faster => [.adjustSpeed speedStep]
  | .slower => [.adjustSpeed (-speedStep)]
  | .normalSpeed => [.setSpeed 1.0]
  | .restart => [.restart]
  | .quit => []

theorem apply_eq_afterAll (deck : Deck) (command : Command) :
    command.apply deck = deck.afterAll command.actions := by
  cases command with
  | selectTrack track =>
    simp only [apply, actions, Deck.afterAll, Deck.after, Deck.perform, List.foldl_cons,
      List.foldl_nil]
    cases deck.selectTrack track <;> rfl
  | toggleMute | nextTrack | previousTrack | togglePause | volume | faster | slower | normalSpeed
  | restart | quit => rfl

/-- The lines that mute a channel are those of one word, the number of the channel counted from
one. -/
theorem parse?_eq_toggleMute_iff {text : String} {channel : Fin 4} :
    parse? text = some (.toggleMute channel) ↔
      Text.words text.toList = [[Nat.digitChar (channel.val + 1)]] := by
  rw [parse?]
  generalize Text.words text.toList = words
  constructor
  · intro h
    unfold ofWords? at h
    split at h
    case h_1 | h_2 | h_3 | h_4 =>
      cases h
      rfl
    all_goals simp at h
  · rintro rfl
    fin_cases channel <;> rfl

/-- The deck after commands, one after the other. -/
def applyAll (deck : Deck) (commands : List Command) : Deck :=
  commands.foldl (fun deck command => command.apply deck) deck

theorem applyAll_append (deck : Deck) (first second : List Command) :
    applyAll deck (first ++ second) = applyAll (applyAll deck first) second := List.foldl_append

/-- The mute flags after a command. -/
def flipMuted (muted : Vector Bool 4) : Command → Vector Bool 4
  | .toggleMute channel => .ofFn fun i => if i = channel then !muted.get i else muted.get i
  | _ => muted

/-- Whether playback is paused after a command. -/
def flipPaused (paused : Bool) : Command → Bool
  | .togglePause => !paused
  | _ => paused

/-- The volume after a command. -/
def turnVolume (volume : Float32) : Command → Float32
  | .volume percent => percent.part
  | _ => volume

/-- The speed after a command. -/
def turnSpeed (speed : Float32) : Command → Float32
  | .faster => TickRate.clampSpeed (speed + speedStep)
  | .slower => TickRate.clampSpeed (speed + -speedStep)
  | .normalSpeed => 1.0
  | _ => speed

end Command

namespace Deck

/-! ### Runs with commands -/

/-- What happens to a deck that is played from the keyboard. -/
inductive Event where
  | tick
  | frame
  | render (frames : Nat)
  | line (text : String)

/-- The command of an event. Lines that are no commands have none. -/
def Event.command? : Event → Option Command
  | .line text => Command.parse? text
  | .tick | .frame | .render _ => none

def handle (deck : Deck) : Event → Deck
  | .tick => deck.playTick.2
  | .frame => deck.runFrame.2
  | .render frames => (deck.render frames).2
  | .line text =>
    match Command.parse? text with
    | some command => command.apply deck
    | none => deck

def handleAll (deck : Deck) (events : List Event) : Deck := events.foldl handle deck

variable {album : Album} {config : Config} {deck : Deck}

theorem Reached.apply (h : Reached album config deck) (command : Command) :
    Reached album config (command.apply deck) := by
  rw [Command.apply_eq_afterAll]
  exact h.afterAll command.actions

theorem Reached.handle (h : Reached album config deck) (event : Event) :
    Reached album config (deck.handle event) := by
  cases event with
  | tick =>
    rw [Deck.handle, ← after_tick]
    exact h.afterAll [.tick]
  | frame => exact h.afterAll [.frame]
  | render frames => exact h.afterAll [.render frames]
  | line text =>
    simp only [Deck.handle]
    split
    · exact h.apply _
    · exact h

theorem Reached.handleAll (h : Reached album config deck) (events : List Event) :
    Reached album config (deck.handleAll events) := by
  induction events generalizing deck with
  | nil => exact h
  | cons event rest ih => exact ih (h.handle event)

/-- There is a track to start on exactly if there is one at all. -/
theorem exists_new_iff (album : Album) (config : Config) :
    (∃ start, Deck.new album config = .ok start) ↔ 1 ≤ album.header.trackTotal := by
  have hcount : 1 ≤ album.header.trackTotal ↔ 0 < album.header.trackCount :=
    UInt8.le_iff_toNat_le
  have hfirst : firstTrack album < album.header.trackCount ↔ 0 < album.header.trackCount := by
    unfold firstTrack
    split <;> omega
  rw [hcount, ← hfirst]
  constructor
  · rintro ⟨start, hnew⟩
    exact (new_eq_ok hnew).1
  · intro hlt
    exact ⟨restart (unstarted album config), by
      simp only [Deck.new, Album.Header.checkTrack, if_pos hlt]; rfl⟩

/-! ### Tracks -/

theorem applyAll_nextTrack (k : Nat) :
    Command.applyAll deck (.replicate (k + 1) .nextTrack) =
      restart { deck with track := (deck.track + (k + 1)) % deck.trackCount } := by
  induction k with
  | zero => rfl
  | succ k ih =>
    have hnext : ((deck.track + (k + 1)) % deck.trackCount + 1) % deck.trackCount =
        (deck.track + (k + 1 + 1)) % deck.trackCount := by
      rw [Nat.mod_add_mod, Nat.add_assoc]
    calc Command.applyAll deck (.replicate (k + 1 + 1) .nextTrack)
        = (Command.applyAll deck (.replicate (k + 1) .nextTrack)).nextTrack := by
          rw [List.replicate_succ', Command.applyAll_append]
          rfl
      _ = restart { deck with
            track := ((deck.track + (k + 1)) % deck.trackCount + 1) % deck.trackCount } := by
          rw [ih]
          exact deck.restart_track _ _
      _ = restart { deck with track := (deck.track + (k + 1 + 1)) % deck.trackCount } := by
          rw [hnext]

/-- As many steps back as there were steps on lead back to where they began. -/
theorem applyAll_previousTrack (hcount : 0 < deck.trackCount) (k track : Nat) :
    Command.applyAll (restart { deck with track := (track + k) % deck.trackCount })
        (.replicate k .previousTrack) =
      restart { deck with track := track % deck.trackCount } := by
  induction k with
  | zero => rfl
  | succ k ih =>
    have hprevious : ((track + (k + 1)) % deck.trackCount + deck.trackCount - 1) % deck.trackCount =
        (track + k) % deck.trackCount := by
      rw [Nat.add_sub_assoc hcount, Nat.mod_add_mod]
      have hsum : track + (k + 1) + (deck.trackCount - 1) = track + k + deck.trackCount := by omega
      rw [hsum, Nat.add_mod_right]
    calc Command.applyAll (restart { deck with track := (track + (k + 1)) % deck.trackCount })
          (.replicate (k + 1) .previousTrack)
        = Command.applyAll
            (restart { deck with track := (track + (k + 1)) % deck.trackCount }).previousTrack
            (.replicate k .previousTrack) := rfl
      _ = Command.applyAll (restart { deck with track := (track + k) % deck.trackCount })
            (.replicate k .previousTrack) := by
          rw [← hprevious]
          exact congrArg (Command.applyAll · _) (deck.restart_track _ _)
      _ = restart { deck with track := track % deck.trackCount } := ih

/-! ### Settings -/

/-- The settings after a command. Each is turned by commands of its own. -/
def Settings.heed (settings : Settings) (command : Command) : Settings where
  muted := Command.flipMuted settings.muted command
  volume := Command.turnVolume settings.volume command
  speed := Command.turnSpeed settings.speed command
  paused := Command.flipPaused settings.paused command

theorem RanTo.settings_eq {next : Deck} (h : deck.RanTo next) : next.settings = deck.settings := by
  obtain ⟨cpu, memory, hran, rfl⟩ := h
  have hfixed := hran.fixed_eq
  simp only [Memory.fixed, Memory.Fixed.mk.injEq] at hfixed
  obtain ⟨-, -, hmuted, hvolume, -, hspeed⟩ := hfixed
  simp only [settings, volume, speed, hmuted, hvolume, hspeed]

theorem settings_track (deck : Deck) (track : Nat) :
    (restart { deck with track }).settings = deck.settings :=
  settings_restart { deck with track }

/-- The parts that percentages stand for need no limits. -/
theorem clampVolume_part (percent : Percent) :
    SoundUnit.clampVolume percent.part = percent.part := by
  have hall : ∀ percent : Percent, SoundUnit.clampVolume percent.part = percent.part := by
    decide +kernel
  exact hall percent

/-- A command changes the settings as it says and no others. -/
theorem settings_apply (deck : Deck) (command : Command) :
    (command.apply deck).settings = deck.settings.heed command := by
  have hnormal : TickRate.clampSpeed 1.0 = 1.0 := by decide
  cases command with
  | selectTrack track =>
    by_cases hlt : track < deck.trackCount
    · simp only [Command.apply, selectTrack_of_lt hlt]
      exact settings_track deck track
    · simp only [Command.apply, selectTrack_of_le (Nat.not_lt.mp hlt)]
      rfl
  | nextTrack | previousTrack => exact settings_track deck _
  | restart => exact settings_restart deck
  | volume percent =>
    have hset : ((Command.volume percent).apply deck).settings =
        { deck.settings with volume := SoundUnit.clampVolume percent.part } := rfl
    rw [hset, clampVolume_part]
    rfl
  | normalSpeed =>
    have hset : (Command.normalSpeed.apply deck).settings =
        { deck.settings with speed := TickRate.clampSpeed 1.0 } := rfl
    rw [hset, hnormal]
    rfl
  | toggleMute channel =>
    have hmuted : deck.settings.muted.set channel (!deck.settings.muted[channel]) =
        Command.flipMuted deck.settings.muted (.toggleMute channel) := by
      apply Vector.ext
      intro i hi
      by_cases h : channel = ⟨i, hi⟩
      · subst h
        simp [Command.flipMuted, Vector.get_eq_getElem]
      · have hne : channel.val ≠ i := fun heq => h (Fin.ext heq)
        simp [Command.flipMuted, Vector.get_eq_getElem, hne, Ne.symm h]
    exact congrArg (fun muted => { deck.settings with muted }) hmuted
  | togglePause | faster | slower | quit => rfl

theorem settings_handle (deck : Deck) (event : Event) :
    (deck.handle event).settings = event.command?.elim deck.settings deck.settings.heed := by
  cases event with
  | tick => exact deck.ranTo_playTick.settings_eq
  | frame => exact deck.ranTo_runFrame.settings_eq
  | render frames => exact (deck.ranTo_render frames).settings_eq
  | line text =>
    simp only [handle, Event.command?]
    cases Command.parse? text with
    | some command => exact deck.settings_apply command
    | none => rfl

theorem settings_handleAll (deck : Deck) (events : List Event) :
    (deck.handleAll events).settings =
      (events.filterMap Event.command?).foldl Settings.heed deck.settings := by
  induction events generalizing deck with
  | nil => rfl
  | cons event rest ih =>
    have hrest := ih (deck.handle event)
    rw [settings_handle] at hrest
    rw [List.filterMap_cons]
    cases hcommand : event.command? with
    | none =>
      rw [hcommand] at hrest
      exact hrest
    | some command =>
      rw [hcommand] at hrest
      exact hrest

/-- What one command flips and no other command touches is flipped once for each such command. -/
theorem foldl_flip {State : Type} (next : State → Command → State) (flag : State → Bool)
    (own : Command) (hown : ∀ state, flag (next state own) = !flag state)
    (hother : ∀ state command, command ≠ own → flag (next state command) = flag state)
    (commands : List Command) (state : State) :
    flag (commands.foldl next state) = Bool.not^[commands.count own] (flag state) := by
  induction commands generalizing state with
  | nil => rfl
  | cons command rest ih =>
    rw [List.foldl_cons, ih, List.count_cons]
    by_cases h : command = own
    · subst h
      rw [hown, beq_self_eq_true, if_pos rfl, Function.iterate_succ_apply]
    · rw [hother state command h, if_neg (by simpa using h), Nat.add_zero]

theorem muted_foldl (settings : Settings) (commands : List Command) (channel : Fin 4) :
    (commands.foldl Settings.heed settings).muted.get channel =
      Bool.not^[commands.count (.toggleMute channel)] (settings.muted.get channel) := by
  apply foldl_flip Settings.heed fun settings => settings.muted.get channel
  · intro settings
    simp [Settings.heed, Command.flipMuted, Vector.get_eq_getElem]
  · intro settings command h
    cases command with
    | toggleMute other =>
      have hne : channel ≠ other := by
        rintro rfl
        exact h rfl
      simp [Settings.heed, Command.flipMuted, Vector.get_eq_getElem, hne]
    | _ => rfl

theorem paused_foldl (settings : Settings) (commands : List Command) :
    (commands.foldl Settings.heed settings).paused =
      Bool.not^[commands.count .togglePause] settings.paused := by
  apply foldl_flip Settings.heed Settings.paused
  · exact fun _ => rfl
  · intro settings command h
    cases command with
    | togglePause => exact absurd rfl h
    | _ => rfl

theorem volume_foldl (settings : Settings) (commands : List Command) :
    (commands.foldl Settings.heed settings).volume =
      commands.foldl Command.turnVolume settings.volume :=
  (List.foldl_hom Settings.volume fun _ _ => rfl).symm

theorem speed_foldl (settings : Settings) (commands : List Command) :
    (commands.foldl Settings.heed settings).speed =
      commands.foldl Command.turnSpeed settings.speed :=
  (List.foldl_hom Settings.speed fun _ _ => rfl).symm

/-- The control surface. A deck can be made of an album exactly if it has a track, and the channel
of a line that mutes one is a number from one to four. After any run of ticks, frames, renders and
typed lines from any deck that is reached, the track is one that the album has, and every command
has a result. Only the command to quit ends playback, and it leaves the deck as it is, as does
asking for a track that the album does not have. Going to the next track `k` times leads `k` tracks
on, around the end, and going back as often undoes it, up to a restart of the track. The settings of
the user are what the commands of the run have made of them: a mute flag is flipped once by each
command for its channel, the pause by each command for it, and no restart and no change of the track
touches the volume or the speed. -/
theorem control_surface (album : Album) (config : Config) :
    ((∃ start, Deck.new album config = .ok start) ↔ 1 ≤ album.header.trackTotal) ∧
      (∀ text channel, Command.parse? text = some (.toggleMute channel) ↔
        Text.words text.toList = [[Nat.digitChar (channel.val + 1)]]) ∧
      ∀ start, Reached album config start → ∀ events : List Event,
        let deck := start.handleAll events
        let commands := events.filterMap Event.command?
        deck.track < deck.trackCount ∧
          (∀ command : Command, command.carryOut? deck = some (command.apply deck)) ∧
          (∀ command : Command, command.continues = false ↔ command = .quit) ∧
          Command.quit.apply deck = deck ∧
          (∀ track, deck.trackCount ≤ track → (Command.selectTrack track).apply deck = deck) ∧
          (∀ k,
            let onward := Command.applyAll deck (.replicate k .nextTrack)
            let back := Command.applyAll onward (.replicate k .previousTrack)
            onward.track = (deck.track + k) % deck.trackCount ∧
              back.track = deck.track ∧ (0 < k → back = restart deck)) ∧
          (∀ channel, deck.isMuted channel =
            Bool.not^[commands.count (.toggleMute channel)] (start.isMuted channel)) ∧
          deck.paused = Bool.not^[commands.count .togglePause] start.paused ∧
          deck.volume = commands.foldl Command.turnVolume start.volume ∧
          deck.speed = commands.foldl Command.turnSpeed start.speed := by
  refine ⟨exists_new_iff album config, fun _ _ => Command.parse?_eq_toggleMute_iff,
    fun start hstart events => ?_⟩
  intro deck commands
  have hdeck : Reached album config deck := hstart.handleAll events
  have hsettings : deck.settings = commands.foldl Settings.heed start.settings :=
    start.settings_handleAll events
  have htrack : deck.track < deck.trackCount := by
    rw [trackCount, hdeck.plays.album_eq]
    exact hdeck.plays.track_lt
  have hresult := Command.carryOut?_eq htrack hdeck.settled.speed_eq
  refine ⟨htrack, hresult, ?_, rfl, ?_, ?_, ?_, ?_, ?_, ?_⟩
  · intro command
    cases command <;> simp [Command.continues]
  · intro track hle
    simp only [Command.apply, selectTrack_of_le hle]
  · intro k
    have hmod : deck.track % deck.trackCount = deck.track := Nat.mod_eq_of_lt htrack
    cases k with
    | zero => exact ⟨hmod.symm, rfl, fun h => absurd h (Nat.lt_irrefl 0)⟩
    | succ k =>
      intro onward back
      have honward : onward = restart _ := applyAll_nextTrack k
      have hback : back = restart deck := by
        have h := applyAll_previousTrack hdeck.trackCount_pos (k + 1) deck.track
        rwa [hmod, ← applyAll_nextTrack] at h
      exact ⟨congrArg track honward, by rw [hback]; rfl, fun _ => hback⟩
  · intro channel
    exact (congrArg (fun settings => settings.muted.get channel) hsettings).trans
      (muted_foldl _ _ channel)
  · exact (congrArg Settings.paused hsettings).trans (paused_foldl _ _)
  · exact (congrArg Settings.volume hsettings).trans (volume_foldl _ _)
  · exact (congrArg Settings.speed hsettings).trans (speed_foldl _ _)

/-- While a driver runs, one channel is muted, heard and muted again, the volume is halved, and a
line that is no command and a track that is not there change nothing. -/
theorem control_surface_pairedDeck :
    let events : List Event := [.line "1", .tick, .line " v  50 ", .line "t 7", .line "1", .frame,
      .line "mute", .line "n", .render 2, .line "1", .line "v 500x", .line "r", .tick]
    let deck := pairedDeck.handleAll events
    Reached pairedAlbum {} pairedDeck ∧ deck.isMuted Sound.square1 = true ∧
      deck.isMuted Sound.wave = false ∧ deck.paused = false ∧ deck.volume = 0.5 ∧
      deck.speed = 1.0 := by
  intro events deck
  have hreached : Reached pairedAlbum {} pairedDeck := ⟨pairedDeck, [], rfl, rfl⟩
  have hcommands : events.filterMap Event.command? = [.toggleMute Sound.square1, .volume 50,
      .selectTrack 7, .toggleMute Sound.square1, .nextTrack, .toggleMute Sound.square1,
      .restart] := by decide +kernel
  obtain ⟨-, -, -, -, -, -, hmuted, hpaused, hvolume, hspeed⟩ :=
    (control_surface pairedAlbum {}).2.2 pairedDeck hreached events
  rw [hcommands] at hmuted hpaused hvolume hspeed
  exact ⟨hreached, (hmuted _).trans (by decide +kernel), (hmuted _).trans (by decide +kernel),
    hpaused.trans (by decide +kernel), hvolume.trans (by decide +kernel),
    hspeed.trans (by decide +kernel)⟩

end Deck
end Chiptune
