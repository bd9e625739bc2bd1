import Chiptune.Proofs.Alignment
import Chiptune.Proofs.Period
import Chiptune.Proofs.Restart

/-!
# Mute flags and the master volume

The user may mute channels and set the master volume at any time. Both are
applied by the mixer, after every channel has played. A deck is plain when
nothing is muted and the volume is one, and a run of a plain deck is the run of
the deck with its output settings taken away: whatever an action does, it does
the same to the plain deck.

What the mixer does is a law of single frames, although it works channel by
channel over a whole block.
-/
namespace Chiptune

open Album (Header)
open Sound

/-! ### Plain decks -/

/-- The unit with no channel muted and the master volume at one. -/
def SoundUnit.plain (unit : SoundUnit) : SoundUnit :=
  { unit with muted := Vector.replicate 4 false, masterVolume := 1.0 }

theorem SoundUnit.plain_write (unit : SoundUnit) (address : UInt16) (value : UInt8) :
    (unit.write address value).plain = unit.plain.write address value := by
  unfold write
  cases Register.ofAddress address <;> rfl

namespace Memory

/-- The memory with a plain sound unit. -/
def plain (memory : Memory) : Memory := { memory with sound := memory.sound.plain }

theorem plain_read (memory : Memory) (address : UInt16) :
    memory.plain.read address = memory.read address := by
  unfold read
  cases Region.ofAddress address with
  | sound =>
    simp only [SoundUnit.read]
    cases Register.ofAddress address <;> rfl
  | rom | bankSelect | timer | plain => rfl

theorem plain_write (memory : Memory) (address : UInt16) (value : UInt8) :
    (memory.write address value).plain = memory.plain.write address value := by
  unfold write
  cases Region.ofAddress address with
  | bankSelect =>
    have hselect : memory.plain.selectable? value.toNat = memory.selectable? value.toNat := rfl
    simp only [selectBank, hselect]
    cases memory.selectable? value.toNat <;> rfl
  | sound => simp only [plain, SoundUnit.plain_write]
  | rom | timer | plain => rfl

theorem plain_apply (memory : Memory) (store : Store) :
    (memory.apply store).plain = memory.plain.apply store := by
  cases store with
  | none => rfl
  | byte address value => exact memory.plain_write address value
  | word address value => simp only [apply, writeWord, plain_write]

theorem plain_writeAll (memory : Memory) (address : UInt16) (values : List UInt8) :
    (memory.writeAll address values).plain = memory.plain.writeAll address values := by
  induction values generalizing memory address with
  | nil => rfl
  | cons value rest ih => simp only [writeAll, ih, plain_write]

end Memory

theorem Cpu.step_plain (cpu : Cpu) (memory : Memory) :
    cpu.step memory.plain =
      { cpu.step memory with memory := (cpu.step memory).memory.plain } := by
  have heffect : cpu.effectIn memory.plain = cpu.effectIn memory := by
    simp only [effectIn, Memory.plain_read]
  simp only [step, heffect, Memory.plain_apply]

namespace Deck

/-- The deck with nothing muted and the master volume at one. -/
def plain (deck : Deck) : Deck := { deck with memory := deck.memory.plain }

theorem initMemory_plain (header : Header) (memory : Memory) :
    (initMemory header memory).plain = initMemory header memory.plain := by
  have htimed : (timedMemory header memory).plain = timedMemory header memory.plain := by
    have hcleared : (clearedMemory header memory).plain = clearedMemory header memory.plain := rfl
    rw [timedMemory, timedMemory, ← hcleared, ← Memory.plain_write]
    rfl
  simp only [initMemory, Memory.plain_writeAll, htimed]

theorem restart_plain (deck : Deck) : (restart deck).plain = restart deck.plain := by
  simp only [restart, plain, initMemory_plain]

theorem step_plain (deck : Deck) : deck.plain.step = (deck.step.1, deck.step.2.plain) := by
  simp only [step, plain, Cpu.step_plain]

theorem runRoutine_plain (rest : UInt16) (budget steps : Nat) (cpu : Cpu) (memory : Memory) :
    runRoutine rest budget steps cpu memory.plain =
      { runRoutine rest budget steps cpu memory with
        memory := (runRoutine rest budget steps cpu memory).memory.plain } := by
  induction budget generalizing steps cpu memory with
  | zero => rfl
  | succ budget ih =>
    by_cases hrest : cpu.registers.sp = rest
    · simp only [runRoutine, if_pos hrest]
    · simp only [runRoutine, if_neg hrest, Cpu.step_plain, ih]

theorem runFrame_plain (deck : Deck) :
    deck.plain.runFrame = (deck.runFrame.1, deck.runFrame.2.plain) := by
  simp only [runFrame, plain, runRoutine_plain]

theorem batch_plain (share : Float32) (limit : Nat) (elapsed : Float32) (deck : Deck) :
    batch share limit elapsed deck.plain = (batch share limit elapsed deck).plain := by
  induction limit generalizing elapsed deck with
  | zero => rfl
  | succ limit ih =>
    have hframes : deck.plain.framesPerTick = deck.framesPerTick := rfl
    simp only [batch, hframes, runFrame_plain, ih]
    split <;> rfl

theorem advance_plain (deck : Deck) :
    deck.plain.advance = (deck.advance.1, deck.advance.2.plain) := by
  have hframes : deck.runFrame.2.plain.framesPerTick = deck.runFrame.2.framesPerTick := rfl
  have hrate : deck.runFrame.2.plain.memory.rate = deck.runFrame.2.memory.rate := rfl
  simp only [advance, runFrame_plain, hframes, hrate, batch_plain]
  split <;> rfl

theorem render_plain (deck : Deck) (frames : Nat) :
    (deck.plain.render frames).2 = (deck.render frames).2.plain := rfl

theorem render_size (deck : Deck) (frames : Nat) : (deck.render frames).1.size = frames :=
  deck.memory.sound.mix_size frames

/-! ### What is not heard -/

/-- An answer without its samples: of a block only the length is left. -/
def Answer.withoutSamples : Answer → Answer
  | .block frames => .block (Array.replicate frames.size .silence)
  | answer => answer

/-- Whether an action is none of the three that set what is heard. -/
def Action.isInside : Action → Bool
  | .setMuted .. | .toggleMute _ | .setVolume _ => false
  | _ => true

theorem plain_after_of_not_inside {deck : Deck} {action : Action}
    (h : action.isInside = false) : (deck.after action).plain = deck.plain := by
  cases action with
  | setMuted | toggleMute | setVolume => rfl
  | _ => contradiction

theorem playTick_of_paused {deck : Deck} (h : deck.paused = true) :
    deck.playTick = (none, deck) := by
  simp only [playTick, h, if_true]

theorem playTick_of_playing {deck : Deck} (h : deck.paused = false) :
    deck.playTick =
      (some (deck.advance.2.render deck.advance.1).1,
        (deck.advance.2.render deck.advance.1).2) := by
  simp only [playTick, h, Bool.false_eq_true, if_false]

theorem perform_tick_of_paused {deck : Deck} (h : deck.paused = true) :
    deck.perform .tick = (.silence, deck) := by
  simp only [perform, playTick_of_paused h]

theorem perform_tick_of_playing {deck : Deck} (h : deck.paused = false) :
    deck.perform .tick =
      (.block (deck.advance.2.render deck.advance.1).1,
        (deck.advance.2.render deck.advance.1).2) := by
  simp only [perform, playTick_of_playing h]

/-- An action does the same to the plain deck, with the same answer. -/
theorem perform_plain (deck : Deck) {action : Action} (h : action.isInside = true) :
    (deck.plain.perform action).1.withoutSamples = (deck.perform action).1.withoutSamples ∧
      deck.plain.after action = (deck.after action).plain := by
  cases action with
  | step => simp only [after, perform, step_plain, and_self]
  | frame => simp only [after, perform, runFrame_plain, and_self]
  | tick =>
    cases hpaused : deck.paused with
    | true =>
      have hpaused' : deck.plain.paused = true := hpaused
      simp only [after, perform_tick_of_paused hpaused, perform_tick_of_paused hpaused', and_self]
    | false =>
      have hpaused' : deck.plain.paused = false := hpaused
      simp only [after, perform_tick_of_playing hpaused, perform_tick_of_playing hpaused',
        advance_plain, Answer.withoutSamples, render_size, render_plain, and_self]
  | render frames =>
    simp only [after, perform, Answer.withoutSamples, render_size, render_plain, and_self]
  | poke address value => simp only [after, perform, poke, plain, Memory.plain_write, and_self]
  | select track =>
    have hcount : deck.plain.trackCount = deck.trackCount := rfl
    by_cases hlt : track < deck.trackCount
    · have hlt' : track < deck.plain.trackCount := hlt
      simp only [after, perform, selectTrack_of_lt hlt, selectTrack_of_lt hlt', restart_plain]
      exact ⟨rfl, rfl⟩
    · have hle : deck.trackCount ≤ track := Nat.not_lt.mp hlt
      have hle' : deck.plain.trackCount ≤ track := hle
      simp only [after, perform, selectTrack_of_le hle, selectTrack_of_le hle', hcount, and_self]
  | next | previous =>
    simp only [after, perform, nextTrack, previousTrack, restart_plain]
    exact ⟨rfl, rfl⟩
  | restart => simp only [after, perform, restart_plain, and_self]
  | togglePause | setSpeed | adjustSpeed => exact ⟨rfl, rfl⟩
  | setMuted | toggleMute | setVolume => contradiction

/-- Everything that an action shows of a deck but the sound itself. -/
structure Inside where
  /-- The answer, with the length of a block in place of its samples. -/
  answer : Answer
  /-- The deck after the action without its output settings: processor, memory, tick rate, channels,
  registers and scopes. -/
  deck : Deck
  read : UInt16 → UInt8
  level : Fin 4 → UInt8 × UInt8

def inside (deck : Deck) (action : Action) : Inside where
  answer := (deck.perform action).1.withoutSamples
  deck := (deck.after action).plain
  read := (deck.after action).memory.read
  level := (deck.after action).memory.sound.level

theorem inside_plain {deck : Deck} {action : Action} (h : action.isInside = true) :
    deck.plain.inside action = deck.inside action := by
  obtain ⟨hanswer, hafter⟩ := deck.perform_plain h
  have hread : (deck.after action).plain.memory.read = (deck.after action).memory.read :=
    funext (deck.after action).memory.plain_read
  simp only [inside, hafter, hanswer, hread]
  rfl

/-- What a run shows but its sound, noted at every action that is no output setting. -/
def insideNotes : Deck → List Action → List Inside := notes after Action.isInside inside

theorem insideNotes_eq (deck : Deck) {actions others : List Action}
    (hsame : actions.filter Action.isInside = others.filter Action.isInside) :
    deck.insideNotes actions = deck.insideNotes others ∧
      (deck.afterAll actions).plain = (deck.afterAll others).plain := by
  have hown : KeptByOwn after Action.isInside (fun a b : Deck => a.plain = b.plain)
      actions others := by
    constructor
    · intro action _ haction a b hab
      rw [plain_after_of_not_inside haction, hab]
    · intro action _ haction a b hab
      rw [plain_after_of_not_inside haction, hab]
  refine (aligned_of_filter_eq hsame).notes_eq hown ?_ rfl
  intro action haction a b hab
  constructor
  · rw [← inside_plain haction, hab, inside_plain haction]
  · rw [← (a.perform_plain haction).2, hab, (b.perform_plain haction).2]

end Deck

/-! ### The law of the mixer -/

namespace Sound.Frame

theorem length_interleave (block : List Frame) :
    (interleave block).length = 2 * block.length := by
  induction block with
  | nil => rfl
  | cons frame rest ih =>
    have hcons : interleave (frame :: rest) = frame.left :: frame.right :: interleave rest := rfl
    simp only [hcons, List.length_cons, ih]
    omega

theorem getElem?_interleave (block : List Frame) (k : Nat) :
    (interleave block)[2 * k]? = block[k]?.map Frame.left ∧
      (interleave block)[2 * k + 1]? = block[k]?.map Frame.right := by
  induction block generalizing k with
  | nil => exact ⟨rfl, rfl⟩
  | cons frame rest ih =>
    have hcons : interleave (frame :: rest) = frame.left :: frame.right :: interleave rest := rfl
    cases k with
    | zero => exact ⟨rfl, rfl⟩
    | succ k =>
      simp only [hcons, Nat.mul_succ, List.getElem?_cons_succ]
      exact ih k

end Sound.Frame

namespace SoundUnit

/-- Adds frame `k` of what one channel played to a frame of the mix, unless it is muted. -/
def addSample (unit : SoundUnit) (k : Nat) (frame : Frame) (i : Fin 4) : Frame :=
  if unit.muted.get i then frame
  else
    frame.add (unit.scopes.get i)[k]! (unit.leftGain (unit.channels.get i))
      (unit.rightGain (unit.channels.get i))

/-- Every scope holds one sample for each frame of the period. -/
def Scoped (unit : SoundUnit) (frames : Nat) : Prop :=
  ∀ i : Fin 4, (unit.scopes.get i).size = frames

theorem scoped_play (unit : SoundUnit) (frames : Nat) : (unit.play frames).Scoped frames := by
  intro i
  rw [play_scopes, Channel.render_size]

section

variable {unit : SoundUnit} {frames k : Nat}

theorem Scoped.addChannel_getElem? (h : unit.Scoped frames) (hk : k < frames)
    {block : Array Frame} (i : Fin 4) :
    (unit.addChannel block i)[k]? = block[k]?.map fun frame => unit.addSample k frame i := by
  have hsample : (unit.scopes.get i)[k]? = some (unit.scopes.get i)[k]! := by
    have hlt : k < (unit.scopes.get i).size := by rwa [h i]
    rw [getElem!_pos _ k hlt, getElem?_pos _ k hlt]
  simp only [addChannel, Fin.getElem_fin, ← Vector.get_eq_getElem, addSample]
  split
  · rw [Option.map_id']
  · rw [Array.getElem?_zipWith, hsample]
    cases block[k]? <;> rfl

theorem Scoped.foldl_addChannel_getElem? (h : unit.Scoped frames) (hk : k < frames)
    (channels : List (Fin 4)) (block : Array Frame) :
    (channels.foldl unit.addChannel block)[k]? =
      block[k]?.map fun frame => channels.foldl (unit.addSample k) frame := by
  induction channels generalizing block with
  | nil => simp only [List.foldl_nil, Option.map_id']
  | cons i rest ih =>
    rw [List.foldl_cons, ih, h.addChannel_getElem? hk, Option.map_map]
    rfl

/-- The mixer works channel by channel, but a frame of the mix is made of the samples at its own
place only. -/
theorem Scoped.mix_getElem? (h : unit.Scoped frames) (hk : k < frames) :
    (unit.mix frames)[k]? =
      some (((List.finRange 4).foldl (unit.addSample k) .silence).scale unit.masterVolume) := by
  rw [mix, Array.getElem?_map, h.foldl_addChannel_getElem? hk, Array.getElem?_replicate, if_pos hk]
  rfl

end

/-- The sum of one side over the channels that are not muted, in their order. -/
def sideSum (unit : SoundUnit) (k : Nat) (gain : Channel → Float32) (channels : List (Fin 4))
    (sum : Float32) : Float32 :=
  (channels.filter fun i => !unit.isMuted i).foldl
    (fun sum i => sum + (unit.scopes.get i)[k]! * gain (unit.channels.get i)) sum

theorem foldl_addSample (unit : SoundUnit) (k : Nat) (channels : List (Fin 4)) (frame : Frame) :
    channels.foldl (unit.addSample k) frame =
      ⟨unit.sideSum k unit.leftGain channels frame.left,
        unit.sideSum k unit.rightGain channels frame.right⟩ := by
  induction channels generalizing frame with
  | nil => rfl
  | cons i rest ih =>
    have hmuted : unit.isMuted i = unit.muted.get i := by
      rw [isMuted, Fin.getElem_fin, Vector.get_eq_getElem]
    rw [List.foldl_cons, ih]
    cases hi : unit.muted.get i <;>
      simp [sideSum, addSample, hmuted, hi, Frame.add]

/-- One sample of a mix, as the law of the mixer has it: the sum over the channels that are not
muted, from the first to the last, of what each played times its gain on the side, and then the
master volume. A channel that is not routed to the side adds silence. -/
def mixedSample (unit : SoundUnit) (k : Nat) (routed : Channel → Bool) (volume : Float32) :
    Float32 :=
  unit.sideSum k (fun ch => if routed ch then 0.25 * volume else 0.0) (List.finRange 4) 0.0 *
    unit.masterVolume

theorem Scoped.mix_samples {unit : SoundUnit} {frames k : Nat} (h : unit.Scoped frames)
    (hk : k < frames) :
    let samples := Frame.interleave (unit.mix frames).toList
    samples[2 * k]? = some (unit.mixedSample k Channel.left unit.volumeLeft) ∧
      samples[2 * k + 1]? = some (unit.mixedSample k Channel.right unit.volumeRight) := by
  obtain ⟨hleft, hright⟩ := Frame.getElem?_interleave (unit.mix frames).toList k
  have hframe : (unit.mix frames).toList[k]? = (unit.mix frames)[k]? := Array.getElem?_toList
  rw [hframe, h.mix_getElem? hk, foldl_addSample] at hleft hright
  exact ⟨hleft, hright⟩

end SoundUnit

namespace Deck

/-- Muting and the master volume are for the output only. Runs that differ in nothing else show the
same but for their sound, after every action. What is heard follows frame by frame from what each
channel played, muted or not. -/
theorem output_settings_only_heard (deck : Deck) {actions others : List Action}
    (hsame : actions.filter Action.isInside = others.filter Action.isInside) :
    deck.insideNotes actions = deck.insideNotes others ∧
      (deck.afterAll actions).plain = (deck.afterAll others).plain ∧
      ∀ (unit : SoundUnit) (frames : Nat),
        let rendered := unit.render frames
        let samples := Frame.interleave rendered.1.toList
        samples.length = 2 * frames ∧ rendered.2.Scoped frames ∧
          ∀ k < frames,
            samples[2 * k]? =
                some (rendered.2.mixedSample k Channel.left rendered.2.volumeLeft) ∧
              samples[2 * k + 1]? =
                some (rendered.2.mixedSample k Channel.right rendered.2.volumeRight) := by
  obtain ⟨hnotes, hend⟩ := deck.insideNotes_eq hsame
  refine ⟨hnotes, hend, fun unit frames => ⟨?_, unit.scoped_play frames, fun k hk => ?_⟩⟩
  · rw [Frame.length_interleave]
    exact congrArg (2 * ·) (unit.mix_size frames)
  · exact (unit.scoped_play frames).mix_samples hk

/-- A channel that is muted while it plays goes on as one that is heard. -/
theorem output_settings_only_heard_pairedDeck :
    let actions : List Action :=
      [.setMuted square1 true, .poke 0xFF12 0xF0, .poke 0xFF14 0x80, .setVolume 0.5, .render 2]
    let others : List Action :=
      [.poke 0xFF12 0xF0, .toggleMute noise, .poke 0xFF14 0x80, .render 2]
    (pairedDeck.afterAll actions).isMuted square1 = true ∧
      (pairedDeck.afterAll others).isMuted square1 = false ∧
      pairedDeck.insideNotes actions = pairedDeck.insideNotes others ∧
      (pairedDeck.afterAll actions).plain = (pairedDeck.afterAll others).plain := by
  intro actions others
  obtain ⟨hnotes, hend, -⟩ := pairedDeck.output_settings_only_heard (show
    actions.filter Action.isInside = others.filter Action.isInside from rfl)
  exact ⟨by decide +kernel, by decide +kernel, hnotes, hend⟩

end Deck
end Chiptune
