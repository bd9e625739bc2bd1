import Chiptune.Proofs.SoundRun

/-!
# Cutting sound into periods

A period begins with preparing each channel: its pitch is derived anew and slow
noise is stopped. A channel that has played is prepared already, whatever
happened in its samples, so it makes no difference where a period is cut. The
mixer works channel by channel over a whole block, but every frame of a block
depends on its own samples only, so blocks put one after the other are the block
of all of them.
-/
namespace Chiptune
open Sound

/-! ### Channels -/

namespace Sound

def Voice.isNoise : Voice → Bool
  | .noise .. => true
  | _ => false

/-- Two voices that a frequency gives the same pitch. -/
structure Voice.Alike (v w : Voice) : Prop where
  toneHz : ∀ frequency, v.toneHz frequency = w.toneHz frequency
  cellHz : ∀ hz, v.cellHz hz = w.cellHz hz
  isNoise : v.isNoise = w.isNoise

theorem Voice.Alike.refl (v : Voice) : v.Alike v := ⟨fun _ => rfl, fun _ => rfl, rfl⟩

theorem Voice.average_alike (table : WaveTable) (volume : UInt8) (inc phase : Float32)
    (voice : Voice) : (voice.average table volume inc phase).cell.Alike voice := by
  apply Voice.average_induction (P := fun v => v.Alike voice) table volume inc phase
  · intro duty step sweep h
    exact ⟨h.toneHz, h.cellHz, h.isNoise⟩
  · intro position h
    exact ⟨h.toneHz, h.cellHz, h.isNoise⟩
  · intro lfsr short divisor h
    exact ⟨h.toneHz, h.cellHz, h.isNoise⟩
  · exact .refl voice

namespace Channel

/-- A channel of noise with a clock shift that stops it. -/
def isSlowNoise (ch : Channel) : Bool := ch.voice.isNoise && decide (14 ≤ ch.frequency)

theorem stopSlowNoise_eq (ch : Channel) :
    ch.stopSlowNoise = { ch with enabled := ch.enabled && !ch.isSlowNoise } := by
  obtain ⟨enabled, _, _, _, _, _, _, _, frequency, _, _, _, _, _, _, voice⟩ := ch
  cases voice with
  | square => simp [stopSlowNoise, isSlowNoise, Voice.isNoise]
  | wave => simp [stopSlowNoise, isSlowNoise, Voice.isNoise]
  | noise =>
    by_cases hslow : 14 ≤ frequency
    · simp [stopSlowNoise, isSlowNoise, Voice.isNoise, hslow]
    · simp [stopSlowNoise, isSlowNoise, Voice.isNoise, hslow]

theorem prepare_eq (rate : Float32) (ch : Channel) :
    ch.prepare rate =
      { ch with
        phaseInc := ch.voice.cellHz (ch.voice.toneHz ch.frequency) / rate
        note := noteOf (ch.voice.toneHz ch.frequency)
        enabled := ch.enabled && !ch.isSlowNoise } := by
  rw [prepare, stopSlowNoise_eq]
  rfl

/-- The pitch is the one that the frequency gives, and slow noise is off. -/
structure Prepared (rate : Float32) (ch : Channel) : Prop where
  phaseInc : ch.phaseInc = ch.voice.cellHz (ch.voice.toneHz ch.frequency) / rate
  note : ch.note = noteOf (ch.voice.toneHz ch.frequency)
  slow : ch.isSlowNoise → ch.enabled = false

theorem prepared_prepare (rate : Float32) (ch : Channel) : Prepared rate (ch.prepare rate) := by
  rw [prepare_eq]
  refine ⟨rfl, rfl, fun hslow => ?_⟩
  have hslow : ch.isSlowNoise = true := hslow
  simp [hslow]

theorem enabled_and_not_slow {ch : Channel} (h : ch.isSlowNoise → ch.enabled = false) :
    (ch.enabled && !ch.isSlowNoise) = ch.enabled := by
  cases hslow : ch.isSlowNoise with
  | false => simp
  | true => simp [h hslow]

theorem Prepared.prepare_eq_self {rate : Float32} {ch : Channel} (h : Prepared rate ch) :
    ch.prepare rate = ch := by
  rw [prepare_eq, ← h.phaseInc, ← h.note, enabled_and_not_slow h.slow]

/-- What a channel is prepared for is untouched by all that keeps its pitch and does not start
it. -/
theorem Prepared.of_alike {rate : Float32} {ch next : Channel} (h : Prepared rate ch)
    (voice : next.voice.Alike ch.voice) (frequency : next.frequency = ch.frequency)
    (phaseInc : next.phaseInc = ch.phaseInc) (note : next.note = ch.note)
    (enabled : next.enabled → ch.enabled) : Prepared rate next := by
  constructor
  · rw [phaseInc, frequency, voice.toneHz, voice.cellHz, h.phaseInc]
  · rw [note, frequency, voice.toneHz, h.note]
  · intro hslow
    rw [isSlowNoise, voice.isNoise, frequency] at hslow
    have hoff := h.slow hslow
    cases hon : next.enabled with
    | false => rfl
    | true => rw [enabled hon] at hoff; contradiction

theorem Prepared.clockSweep {rate : Float32} {ch : Channel} (h : Prepared rate ch) :
    Prepared rate (ch.clockSweep rate) := by
  simp only [Channel.clockSweep]
  split
  · rename_i duty step sweep hv
    have hvoice : (Voice.square duty step (some sweep.clock.1)).Alike ch.voice := by
      rw [hv]
      exact ⟨fun _ => rfl, fun _ => rfl, rfl⟩
    split
    · exact h.of_alike hvoice rfl rfl rfl id
    · exact ⟨rfl, rfl, fun hslow => by simp [refreshPitch, isSlowNoise, Voice.isNoise] at hslow⟩
    · exact h.of_alike hvoice rfl rfl rfl (fun hon => by simp at hon)
  · exact h

/-- The pitch is refreshed whenever a sweep moves the frequency, so a channel stays prepared. -/
theorem Prepared.play {rate : Float32} {ch : Channel} (h : Prepared rate ch) (table : WaveTable)
    (decay : Float32) : Prepared rate (ch.play table rate decay).2 := by
  apply play_induction table rate decay
  · intro ch h
    exact h.of_alike (.refl _) rfl rfl rfl fun hon => (Bool.and_eq_true_iff.mp hon).1
  · intro ch _ _ h
    exact h.of_alike (.refl _) rfl rfl rfl id
  · intro ch _ h
    exact h.clockSweep
  · intro ch _ h
    exact h.of_alike (Voice.average_alike _ _ _ _ _) rfl rfl rfl id
  · intro ch c h
    exact h.of_alike (.refl _) rfl rfl rfl id
  · exact h

/-- However many samples it has played, a channel is prepared for the next period. -/
theorem prepared_render (ch : Channel) (table : WaveTable) (rate decay : Float32) (frames : Nat) :
    Prepared rate (ch.render table rate decay frames).2 :=
  playMany_induction table rate decay (fun _ h => h.play table decay) frames #[]
    (prepared_prepare rate ch)

theorem playMany_eq_append (table : WaveTable) (rate decay : Float32) (n : Nat)
    (samples : Array Float32) (ch : Channel) :
    playMany table rate decay n samples ch =
      (samples ++ (playMany table rate decay n #[] ch).1,
        (playMany table rate decay n #[] ch).2) := by
  induction n generalizing samples ch with
  | zero => simp [playMany]
  | succ n ih =>
    simp only [playMany]
    rw [ih (samples.push _), ih (#[].push _)]
    simp

theorem playMany_add (table : WaveTable) (rate decay : Float32) (n m : Nat)
    (samples : Array Float32) (ch : Channel) :
    playMany table rate decay (n + m) samples ch =
      playMany table rate decay m (playMany table rate decay n samples ch).1
        (playMany table rate decay n samples ch).2 := by
  induction n generalizing samples ch with
  | zero => rw [Nat.zero_add]; rfl
  | succ n ih =>
    rw [Nat.add_right_comm]
    exact ih _ _

@[simp] theorem playMany_size (table : WaveTable) (rate decay : Float32) (n : Nat)
    (samples : Array Float32) (ch : Channel) :
    (playMany table rate decay n samples ch).1.size = samples.size + n := by
  induction n generalizing samples ch with
  | zero => rfl
  | succ n ih => simp only [playMany, ih, Array.size_push]; omega

@[simp] theorem render_size (ch : Channel) (table : WaveTable) (rate decay : Float32)
    (frames : Nat) : (ch.render table rate decay frames).1.size = frames := by
  simp [render]

/-- A period may be cut anywhere: its second part is a period of its own. -/
theorem render_add (ch : Channel) (table : WaveTable) (rate decay : Float32) (n m : Nat) :
    let first := ch.render table rate decay n
    let second := first.2.render table rate decay m
    ch.render table rate decay (n + m) = (first.1 ++ second.1, second.2) := by
  have hprepared := (prepared_render ch table rate decay n).prepare_eq_self
  simp only [render] at hprepared ⊢
  rw [playMany_add, hprepared, playMany_eq_append table rate decay m]

/-- Playing does not route a channel anew. -/
theorem render_sides (ch : Channel) (table : WaveTable) (rate decay : Float32) (frames : Nat) :
    (ch.render table rate decay frames).2.left = ch.left ∧
      (ch.render table rate decay frames).2.right = ch.right := by
  apply playMany_induction (P := fun c => c.left = ch.left ∧ c.right = ch.right)
  · intro c hc
    apply play_induction (P := fun c => c.left = ch.left ∧ c.right = ch.right) table rate decay
    · exact fun _ h => h
    · exact fun _ _ _ h => h
    · intro c _ h
      simp only [Channel.clockSweep]
      split
      · split <;> exact h
      · exact h
    · exact fun _ _ h => h
    · exact fun _ _ h => h
    · exact hc
  · rw [prepare_eq]
    exact ⟨rfl, rfl⟩

end Channel
end Sound

/-! ### The mixer -/

namespace SoundUnit

theorem play_leftGain (unit : SoundUnit) (frames : Nat) (i : Fin 4) :
    (unit.play frames).leftGain ((unit.play frames).channels.get i) =
      unit.leftGain (unit.channels.get i) := by
  have h := ((unit.channels.get i).render_sides unit.wave unit.rate (decayAt unit.sampleRate)
    frames).1
  simp only [leftGain, play_channels] at h ⊢
  rw [h]
  rfl

theorem play_rightGain (unit : SoundUnit) (frames : Nat) (i : Fin 4) :
    (unit.play frames).rightGain ((unit.play frames).channels.get i) =
      unit.rightGain (unit.channels.get i) := by
  have h := ((unit.channels.get i).render_sides unit.wave unit.rate (decayAt unit.sampleRate)
    frames).2
  simp only [rightGain, play_channels] at h ⊢
  rw [h]
  rfl

@[simp] theorem addChannel_play_size (unit : SoundUnit) (frames : Nat) (i : Fin 4)
    {block : Array Frame} (h : block.size = frames) :
    ((unit.play frames).addChannel block i).size = frames := by
  simp only [addChannel, Fin.getElem_fin, ← Vector.get_eq_getElem]
  split
  · exact h
  · simp [h]

/-- Cutting a period after `n` frames cuts the scope of each channel there. -/
theorem play_add_scopes (unit : SoundUnit) (n m : Nat) (i : Fin 4) :
    (unit.play (n + m)).scopes.get i =
      (unit.play n).scopes.get i ++ ((unit.play n).play m).scopes.get i := by
  have h := (unit.channels.get i).render_add unit.wave unit.rate (decayAt unit.sampleRate) n m
  simp only [play_scopes, play_channels] at h ⊢
  rw [h]
  rfl

theorem play_add_channels (unit : SoundUnit) (n m : Nat) (i : Fin 4) :
    (unit.play (n + m)).channels.get i = ((unit.play n).play m).channels.get i := by
  have h := (unit.channels.get i).render_add unit.wave unit.rate (decayAt unit.sampleRate) n m
  simp only [play_channels] at h ⊢
  rw [h]
  rfl

/-- Cutting a period leaves the unit in the same state, apart from what the scopes keep. -/
theorem play_add (unit : SoundUnit) (n m : Nat) :
    { unit.play (n + m) with scopes := ((unit.play n).play m).scopes } =
      (unit.play n).play m := by
  have h : (unit.play (n + m)).channels = ((unit.play n).play m).channels :=
    Vector.ext fun i hi => unit.play_add_channels n m ⟨i, hi⟩
  dsimp only
  rw [h]
  rfl

/-- A period after an empty one is the period alone. -/
theorem play_zero_play (unit : SoundUnit) (frames : Nat) :
    (unit.play 0).play frames = unit.play frames := by
  have hscopes : ((unit.play 0).play frames).scopes = (unit.play frames).scopes := by
    apply Vector.ext
    intro i hi
    have h := unit.play_add_scopes 0 frames ⟨i, hi⟩
    have hempty : (unit.play 0).scopes.get ⟨i, hi⟩ = #[] := by
      simp [play, Channel.render, Channel.playMany]
    rw [Nat.zero_add, hempty, Array.empty_append] at h
    exact h.symm
  have h := unit.play_add 0 frames
  rw [hscopes, Nat.zero_add] at h
  exact h.symm

/-- One channel added to a block that is cut in two: every frame takes its own sample. -/
theorem addChannel_play_add (unit : SoundUnit) (n m : Nat) (i : Fin 4) {xs ys : Array Frame}
    (hxs : xs.size = n) :
    (unit.play (n + m)).addChannel (xs ++ ys) i =
      (unit.play n).addChannel xs i ++ ((unit.play n).play m).addChannel ys i := by
  have hleft : ∀ unit : SoundUnit, ∀ frames, _ := fun unit frames => play_leftGain unit frames i
  have hright : ∀ unit : SoundUnit, ∀ frames, _ := fun unit frames => play_rightGain unit frames i
  have hmuted : ∀ unit : SoundUnit, ∀ frames, (unit.play frames).muted = unit.muted :=
    fun _ _ => rfl
  simp only [addChannel, Fin.getElem_fin, ← Vector.get_eq_getElem, hmuted, hleft, hright]
  split
  · rfl
  · rw [← Array.zipWith_append (by simp [hxs])]
    simp only [play_add_scopes]

theorem foldl_addChannel_play_add (unit : SoundUnit) (n m : Nat) (channels : List (Fin 4))
    {xs ys : Array Frame} (hxs : xs.size = n) :
    channels.foldl (unit.play (n + m)).addChannel (xs ++ ys) =
      channels.foldl (unit.play n).addChannel xs ++
        channels.foldl ((unit.play n).play m).addChannel ys := by
  induction channels generalizing xs ys with
  | nil => rfl
  | cons i rest ih =>
    simp only [List.foldl_cons]
    rw [addChannel_play_add unit n m i hxs]
    exact ih (unit.addChannel_play_size n i hxs)

theorem mix_size (unit : SoundUnit) (frames : Nat) :
    ((unit.play frames).mix frames).size = frames := by
  have h : ∀ (channels : List (Fin 4)) (block : Array Frame), block.size = frames →
      (channels.foldl (unit.play frames).addChannel block).size = frames := by
    intro channels
    induction channels with
    | nil => exact fun _ h => h
    | cons i rest ih => exact fun block hblock => ih _ (unit.addChannel_play_size frames i hblock)
  rw [mix, Array.size_map]
  exact h _ _ Array.size_replicate

/-- The mixer works channel by channel, but frame by frame all the same. -/
theorem mix_play_add (unit : SoundUnit) (n m : Nat) :
    (unit.play (n + m)).mix (n + m) =
      (unit.play n).mix n ++ ((unit.play n).play m).mix m := by
  simp only [mix]
  rw [← Array.replicate_append_replicate, foldl_addChannel_play_add unit n m _ (by simp),
    Array.map_append]
  rfl

end SoundUnit
end Chiptune
