import Chiptune.Proofs.Feedback
import Chiptune.Proofs.PowerSwitch

/-!
# Channels that have stopped

A channel stops in six ways: its power is taken by its first or its third
register, the unit is switched off, its length runs out, its sweep overflows, or
it is noise that is too slow. The last three happen while a period is played. It
starts in one way only, by a trigger while it has power.

From the sample in which it stops on, a channel plays silence. A period leaves a
stopped channel as it is, but for its length counter and its pitch, and all that
the processor can read of a period is that channels have stopped.
-/
namespace Chiptune
open Sound

/-! ### A channel within a period -/

namespace Sound.Channel

variable {ch : Channel}

theorem playMean_enabled (ch : Channel) (table : WaveTable) (decay : Float32)
    (scale : Float32 → Option Float32) :
    (ch.playMean table decay scale).2.enabled = ch.enabled := by
  simp only [playMean]
  split <;> rfl

/-- The sample in which a channel goes off is silent already. -/
theorem play_silent (table : WaveTable) (rate decay : Float32)
    (h : (ch.play table rate decay).2.enabled = false) :
    (ch.play table rate decay).1 = 0.0 := by
  -- A channel that gets as far as its voice is still on after the sample.
  have hon : ∀ c : Channel, ∀ scale, c.enabled = true →
      (c.playMean table decay scale).2.enabled ≠ false := by
    intro c scale hc
    rw [playMean_enabled, hc]
    decide
  simp only [play] at h ⊢
  split at h
  · rename_i hcounted
    rw [if_pos hcounted]
    split at h
    · split at h
      · rename_i hclocked
        exact absurd h (hon _ _ hclocked)
      · rename_i hclocked
        rw [if_neg hclocked]
        rfl
    · exact absurd h (hon _ _ hcounted)
    · exact absurd h (hon _ _ hcounted)
  · rename_i hcounted
    rw [if_neg hcounted]
    rfl

/-- If a channel is off after some samples, the last of them is silent, and so are all that
follow. -/
theorem playMany_silent (table : WaveTable) (rate decay : Float32) {k n : Nat} (hk : k ≤ n)
    (samples : Array Float32) (h : (playMany table rate decay k samples ch).2.enabled = false) :
    (playMany table rate decay n samples ch).1 =
      (playMany table rate decay (k - 1) samples ch).1 ++ Array.replicate (n - (k - 1)) 0.0 := by
  cases k with
  | zero => exact (playMany_of_off table rate decay n samples h).1
  | succ k =>
    obtain ⟨m, rfl⟩ := Nat.exists_eq_add_of_le hk
    rw [playMany_add _ _ _ k 1] at h
    rw [playMany_add, (playMany_of_off table rate decay m _ (by rwa [playMany_add])).1,
      playMany_add]
    simp only [playMany] at h ⊢
    have hlength : k + 1 + m - k = m + 1 := by omega
    rw [play_silent table rate decay h, Nat.add_sub_cancel, hlength, Array.push_eq_append,
      Array.append_assoc, ← Array.replicate_succ']

theorem countLength_of_off (h : ch.enabled = false) :
    ch.countLength = { ch with length := ch.length.count } := by
  simp [countLength, h]

theorem playMany_frozen (table : WaveTable) (rate decay : Float32) (n : Nat)
    (samples : Array Float32) (h : ch.enabled = false) :
    (playMany table rate decay n samples ch).2 =
      { ch with length := LengthCounter.count^[n] ch.length } := by
  induction n generalizing samples ch with
  | zero => rfl
  | succ n ih =>
    simp only [playMany, play_of_off h, countLength_of_off h]
    exact ih _ h

/-- A period counts the length of a channel that is off, and derives its pitch. -/
theorem render_frozen (table : WaveTable) (rate decay : Float32) (frames : Nat)
    (h : ch.enabled = false) :
    (ch.render table rate decay frames).2 =
      { ch.refreshPitch rate with length := LengthCounter.count^[frames] ch.length } := by
  have hprepare : ch.prepare rate = ch.refreshPitch rate := by
    rw [prepare_eq, h, Bool.false_and, ← h]
    rfl
  rw [render, hprepare]
  exact playMany_frozen table rate decay frames #[] h

end Sound.Channel

/-! ### Runs -/

/-- All samples from a place on are zero. -/
def SilentFrom (place : Nat) (samples : Array Float32) : Prop :=
  ∀ j, place ≤ j → ∀ sample, samples[j]? = some sample → sample = 0.0

theorem silentFrom_replicate (place n : Nat) : SilentFrom place (Array.replicate n 0.0) := by
  intro j _ sample hsample
  rw [Array.getElem?_replicate] at hsample
  split at hsample
  · exact (Option.some_inj.mp hsample).symm
  · contradiction

theorem SilentFrom.append {place : Nat} {samples later : Array Float32}
    (h : SilentFrom place samples) (hlater : SilentFrom 0 later) :
    SilentFrom place (samples ++ later) := by
  intro j hj sample hsample
  rw [Array.getElem?_append] at hsample
  split at hsample
  · exact h j hj sample hsample
  · exact hlater _ (Nat.zero_le _) sample hsample

namespace SoundUnit

open Register (powerAddress)

/-- What a channel plays in an action. -/
def scopeOf (i : Fin 4) (unit : SoundUnit) : Action → Array Float32
  | .render frames => (unit.render frames).2.scopes.get i
  | _ => #[]

/-- Everything that a channel plays in a run. -/
def playedBy (i : Fin 4) : SoundUnit → List Action → Array Float32
  | _, [] => #[]
  | unit, action :: rest => unit.scopeOf i action ++ (unit.after action).playedBy i rest

variable {unit : SoundUnit} {i : Fin 4}

/-- A channel that is off and is not triggered plays nothing but silence. -/
theorem silentFrom_playedBy (later : List Action)
    (hoff : (unit.channels.get i).enabled = false) (h : unit.startsIn i later = false) :
    SilentFrom 0 (unit.playedBy i later) := by
  induction later generalizing unit with
  | nil => exact silentFrom_replicate 0 0
  | cons action rest ih =>
    simp only [startsIn, Bool.or_eq_false_iff] at h
    obtain ⟨haction, hrest⟩ := h
    have hstill : ((unit.after action).channels.get i).enabled = false :=
      enabled_eq_false_of_startsIn [action] hoff (by simp [startsIn, haction])
    refine SilentFrom.append ?_ (ih hstill hrest)
    cases action with
    | render frames =>
      rw [scopeOf, render_snd, play_scopes, (Channel.render_of_off hoff _ _ _ _).1]
      exact silentFrom_replicate 0 frames
    | write | reset | setMuted | toggleMute | setMasterVolume => exact silentFrom_replicate 0 0

/-- From the last of some samples after which a channel is off, its scope is silent. -/
theorem silentFrom_scope {k frames : Nat} (hk : k ≤ frames)
    (hoff : ((unit.play k).channels.get i).enabled = false) :
    SilentFrom (k - 1) ((unit.play frames).scopes.get i) := by
  rw [play_channels] at hoff
  rw [play_scopes]
  have hsilent := Channel.playMany_silent _ _ _ hk #[] hoff
  simp only [Channel.render]
  rw [hsilent]
  intro j hj sample hsample
  rw [Array.getElem?_append_right (by simpa using hj)] at hsample
  exact silentFrom_replicate 0 _ _ (Nat.zero_le _) sample hsample

theorem enabled_of_play {frames : Nat} (h : ((unit.play frames).channels.get i).enabled) :
    (unit.channels.get i).enabled := by
  have hafter : ((unit.after (.render frames)).channels.get i).enabled := h
  obtain ⟨-, hstarts | hbefore⟩ := enabled_of_after hafter
  · contradiction
  · exact hbefore

/-- Once a channel is off after some frames of a period, it is off after all of them. -/
theorem enabled_eq_false_of_play {k frames : Nat} (hk : k ≤ frames)
    (hoff : ((unit.play k).channels.get i).enabled = false) :
    ((unit.play frames).channels.get i).enabled = false := by
  obtain ⟨m, rfl⟩ := Nat.exists_eq_add_of_le hk
  rw [play_add_channels]
  by_contra hon
  rw [enabled_of_play (by simpa using hon)] at hoff
  contradiction

/-- The upper half of the power register does not depend on the channels. -/
theorem read_power_high (unit : SoundUnit) :
    unit.read powerAddress &&& 0xF0 = if unit.powered then 0xF0 else 0x70 := by
  have hbits : ∀ powered : Bool, ∀ on : Vector Bool 4,
      powerBits powered on &&& 0xF0 = if powered then 0xF0 else 0x70 := by
    decide
  rw [read_powerAddress, hbits]

/-- Playing changes no byte of the memory but the power register. -/
theorem matches_play (memory : Memory) (frames : Nat) :
    { memory with sound := memory.sound.play frames }.Matches memory :=
  ⟨rfl, rfl, rfl, rfl, rfl, rfl, rfl⟩

/-- Channels start only by a trigger, and stopped channels are silent and frozen. Whatever state a
run has led to, a channel that is off is turned on by nothing but a trigger while it has power, and
by no period. If a channel is off, or is off after some frames of a period, then everything it plays
from the last of these frames on is silence, in this period and in all that follow, until it is
triggered. A period leaves a channel that is off as it is, but for its length counter and its pitch.
Of the whole memory, a period changes no byte but the power register, and there it can only clear
the bits of channels. -/
theorem stopped_until_triggered (unit : SoundUnit) (i : Fin 4) :
    (∀ action, (unit.channels.get i).enabled = false →
        ((unit.after action).channels.get i).enabled → unit.starts i action) ∧
      (∀ frames, ((unit.play frames).channels.get i).enabled → (unit.channels.get i).enabled) ∧
      (∀ later, (unit.channels.get i).enabled = false → unit.startsIn i later = false →
        SilentFrom 0 (unit.playedBy i later)) ∧
      (∀ k frames later, k ≤ frames → ((unit.play k).channels.get i).enabled = false →
        unit.startsIn i (.render frames :: later) = false →
          SilentFrom (k - 1) (unit.playedBy i (.render frames :: later))) ∧
      (∀ frames, (unit.channels.get i).enabled = false →
        (unit.play frames).channels.get i =
          { (unit.channels.get i).refreshPitch unit.rate with
            length := LengthCounter.count^[frames] (unit.channels.get i).length }) ∧
      ∀ memory : Memory, memory.sound = unit → ∀ frames,
        let rendered := { memory with sound := (unit.render frames).2 }
        (∀ address, address ≠ powerAddress → rendered.read address = memory.read address) ∧
          rendered.read powerAddress &&& 0xF0 = memory.read powerAddress &&& 0xF0 ∧
          ∀ j : Fin 4,
            routes (rendered.read powerAddress) j → routes (memory.read powerAddress) j := by
  refine ⟨fun action hoff hon => ?_, fun frames => enabled_of_play,
    fun later => silentFrom_playedBy later, fun k frames later hk hoff hstarts => ?_,
    fun frames hoff => ?_, ?_⟩
  · obtain ⟨-, hstarts | hbefore⟩ := enabled_of_after hon
    · exact hstarts
    · rw [hoff] at hbefore
      contradiction
  · simp only [startsIn, Bool.or_eq_false_iff] at hstarts
    exact (silentFrom_scope hk hoff).append
      (silentFrom_playedBy later (enabled_eq_false_of_play hk hoff) hstarts.2)
  · rw [play_channels]
    exact Channel.render_frozen _ _ _ _ hoff
  · rintro memory rfl frames
    have hread : ∀ memory : Memory, memory.read powerAddress = memory.sound.read powerAddress :=
      fun _ => rfl
    refine ⟨fun address hne => (matches_play memory frames).read_eq hne, ?_, fun j => ?_⟩
    · simp only [hread, read_power_high]
      rfl
    · simp only [hread, routes_read_power]
      exact enabled_of_play

/-- The length of a tone runs out in the fifth frame of a period. -/
theorem stopped_until_triggered_expired :
    let unit := (new 1024).afterAll [.write 0xFF11 0x3F, .write 0xFF12 0xF0, .write 0xFF14 0xC0]
    let later : List Action := [.write 0xFF13 0x10, .render 3]
    ((unit.play 4).channels.get square1).enabled ∧
      ((unit.play 5).channels.get square1).enabled = false ∧
      unit.startsIn square1 (.render 8 :: later) = false ∧
      SilentFrom 4 (unit.playedBy square1 (.render 8 :: later)) := by
  intro unit later
  have hon : ((unit.play 4).channels.get square1).enabled := by decide +kernel
  have hoff : ((unit.play 5).channels.get square1).enabled = false := by decide +kernel
  have hstarts : unit.startsIn square1 (.render 8 :: later) = false := by decide +kernel
  exact ⟨hon, hoff, hstarts,
    (stopped_until_triggered unit square1).2.2.2.1 5 8 later (by decide) hoff hstarts⟩

end SoundUnit
end Chiptune
