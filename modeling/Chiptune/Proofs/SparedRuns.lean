import Chiptune.Proofs.Ticks
import Chiptune.Proofs.Trigger

/-!
# Runs that spare a channel

A run spares a channel if it writes nothing that the channel hears of, and does
not reset the unit. All that such a run does to the channel is to route it and
to play it, frame by frame.
-/
namespace Chiptune
open Sound

namespace Sound.Channel

variable {ch : Channel}

/-- What preparing and every sample keep is kept by a period. -/
theorem render_induction {P : Channel → Prop} (table : WaveTable) (rate decay : Float32)
    (prepare : ∀ ch, P ch → P (ch.prepare rate))
    (play : ∀ ch, P ch → P (ch.play table rate decay).2) (frames : Nat) (h : P ch) :
    P (ch.render table rate decay frames).2 :=
  playMany_induction table rate decay play frames #[] (prepare ch h)

/-- A sample is played by the channel as it has moved on, and charges its filter. -/
theorem playScaled_snd (ch : Channel) (table : WaveTable) (decay : Float32) :
    ∃ c, (ch.playScaled table decay).2 = { ch.advance table with capacitor := c } := by
  apply playMean_induction (P := fun next => ∃ c, next = { ch.advance table with capacitor := c })
  · exact ⟨_, rfl⟩
  · rintro _ c ⟨_, rfl⟩
    exact ⟨c, rfl⟩

end Sound.Channel

namespace SoundUnit

variable {unit : SoundUnit} {i : Fin 4} {P : Channel → Prop}

/-- Whether an action leaves a channel to play what it has been told to. -/
def Action.spares (i : Fin 4) : Action → Bool
  | .write address _ => !hears i address
  | .reset => false
  | .render _ | .setMuted .. | .toggleMute _ | .setMasterVolume _ => true

theorem spared_after (route : ∀ ch left right, P ch → P { ch with left, right })
    (render : ∀ ch table decay frames, P ch → P (ch.render table unit.rate decay frames).2)
    {action : Action} (haction : action.spares i) (h : P (unit.channels.get i)) :
    P ((unit.after action).channels.get i) := by
  cases action with
  | write address value =>
    have hears : hears i address = false := by simpa [Action.spares] using haction
    obtain ⟨hown, hpower, -⟩ := elsewhere_of_not_hears hears
    simp only [after, SoundUnit.write, writeRegister_channels]
    cases hregister : Register.ofAddress address with
    | channel index number =>
      rw [Channel.receive, if_neg]
      · exact h
      · rintro rfl
        exact hown number hregister
    | routing => exact route _ _ _ h
    | power => exact absurd hregister hpower
    | volume | wave | unused => exact h
  | render frames =>
    simp only [after, render_snd, play_channels]
    exact render _ _ _ _ h
  | reset => contradiction
  | setMuted | toggleMute | setMasterVolume => exact h

/-- One frame more: a channel that has played is prepared for it. -/
theorem play_succ_channels (unit : SoundUnit) (n : Nat) (i : Fin 4) :
    (unit.play (n + 1)).channels.get i =
      (((unit.play n).channels.get i).play unit.wave unit.rate (decayAt unit.sampleRate)).2 := by
  simp only [play_channels, Channel.render, Channel.playMany_add]
  rfl

theorem rate_afterAll (unit : SoundUnit) (actions : List Action) :
    (unit.afterAll actions).rate = unit.rate :=
  afterAll_induction (P := fun later => later.rate = unit.rate)
    (fun later action h => (congrArg UInt32.toFloat32 (later.sampleRate_after action)).trans h) rfl
    actions

theorem Reached.isRate {sampleRate : UInt32} (hunit : Reached sampleRate unit)
    (hrate : 1 ≤ sampleRate) : IsRate unit.rate := by
  rw [rate, hunit.sampleRate_eq]
  exact isRate_toFloat32 hrate

/-- What routing and playing keep is kept by every run that spares the channel. -/
theorem spared_afterAll (route : ∀ ch left right, P ch → P { ch with left, right })
    (render : ∀ ch table decay frames, P ch → P (ch.render table unit.rate decay frames).2)
    {actions : List Action} (hspared : actions.all (Action.spares i))
    (h : P (unit.channels.get i)) : P ((unit.afterAll actions).channels.get i) := by
  induction actions generalizing unit with
  | nil => exact h
  | cons action rest ih =>
    rw [List.all_cons, Bool.and_eq_true] at hspared
    have hrate : (unit.after action).rate = unit.rate := unit.rate_afterAll [action]
    refine ih ?_ hspared.2 (spared_after route render hspared.1 h)
    rw [hrate]
    exact render

end SoundUnit
end Chiptune
