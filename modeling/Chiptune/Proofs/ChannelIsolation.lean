import Chiptune.Proofs.Alignment
import Chiptune.Proofs.Period

/-!
# Channels do not interfere

The four channels share a register file, a power switch and a loop that plays
them. A channel hears of its own five registers, of the power register, and, if
it is the wave, of the wave table. Everything else that is written passes it by.
Its routing belongs to the mixer: nothing that a channel plays depends on it.
-/
namespace Chiptune
open Sound

/-! ### A channel without its routing -/

namespace Sound

theorem Voice.initial_kind_ne_wave {i : Fin 4} (h : i ≠ Sound.wave) :
    (Voice.initial i).kind ≠ .wave := by
  revert i
  decide

namespace Channel

/-- The channel routed nowhere. -/
def unrouted (ch : Channel) : Channel := { ch with left := false, right := false }

theorem unrouted_trigger (ch : Channel) (rate : Float32) :
    (ch.trigger rate).unrouted = ch.unrouted.trigger rate := by
  obtain ⟨_, _, _, _, _, _, _, _, _, _, _, _, _, _, _, voice⟩ := ch
  cases voice <;> rfl

theorem unrouted_writeEnvelope (ch : Channel) (value : UInt8) (rate : Float32) :
    (ch.writeEnvelope value rate).unrouted = ch.unrouted.writeEnvelope value rate := by
  simp only [writeEnvelope, apply_ite unrouted]
  rfl

theorem unrouted_write (ch : Channel) (register : Fin 5) (value : UInt8) (rate : Float32) :
    (ch.write register value rate).unrouted = ch.unrouted.write register value rate := by
  obtain ⟨_, _, _, _, _, _, _, _, _, _, _, _, _, _, _, voice⟩ := ch
  match register with
  | 0 | 1 | 3 => cases voice <;> rfl
  | 2 =>
    cases voice with
    | wave => rfl
    | square | noise => exact unrouted_writeEnvelope _ value rate
  | 4 =>
    have hhigh : ∀ ch : Channel, (ch.writeHigh value).unrouted = ch.unrouted.writeHigh value := by
      intro ch
      obtain ⟨_, _, _, _, _, _, _, _, _, _, _, _, _, _, _, voice⟩ := ch
      cases voice <;> rfl
    simp only [write, writeControl, apply_ite unrouted, unrouted_trigger, ← hhigh]
    rfl

theorem unrouted_clockSweep (ch : Channel) (rate : Float32) :
    (ch.clockSweep rate).unrouted = ch.unrouted.clockSweep rate := by
  obtain ⟨_, _, _, _, _, _, _, _, _, _, _, _, _, _, _, voice⟩ := ch
  cases voice with
  | square duty step sweep =>
    cases sweep with
    | none => rfl
    | some sweep =>
      simp only [clockSweep, unrouted]
      split <;> rfl
  | wave | noise => rfl

theorem playMean_unrouted (ch : Channel) (table : WaveTable) (decay : Float32)
    (scale : Float32 → Option Float32) :
    ch.unrouted.playMean table decay scale =
      ((ch.playMean table decay scale).1, (ch.playMean table decay scale).2.unrouted) := by
  simp only [playMean, unrouted]
  split <;> rfl

theorem play_unrouted (ch : Channel) (table : WaveTable) (rate decay : Float32) :
    ch.unrouted.play table rate decay =
      ((ch.play table rate decay).1, (ch.play table rate decay).2.unrouted) := by
  have hcount : ch.unrouted.countLength = ch.countLength.unrouted := rfl
  have henvelope : ∀ ch : Channel, ch.unrouted.clockEnvelope = ch.clockEnvelope.unrouted :=
    fun _ => rfl
  have hvoice : ch.countLength.unrouted.voice = ch.countLength.voice := rfl
  have hon : ∀ ch : Channel, ch.unrouted.enabled = ch.enabled := fun _ => rfl
  simp only [play, hcount, hvoice, hon, henvelope, ← unrouted_clockSweep]
  split
  · split
    · split
      · exact playMean_unrouted _ _ _ _
      · rfl
    · exact playMean_unrouted _ _ _ _
    · exact playMean_unrouted _ _ _ _
  · rfl

theorem playMany_unrouted (table : WaveTable) (rate decay : Float32) (n : Nat)
    (samples : Array Float32) (ch : Channel) :
    playMany table rate decay n samples ch.unrouted =
      ((playMany table rate decay n samples ch).1,
        (playMany table rate decay n samples ch).2.unrouted) := by
  induction n generalizing samples ch with
  | zero => rfl
  | succ n ih => simp only [playMany, play_unrouted, ih]

theorem render_unrouted (ch : Channel) (table : WaveTable) (rate decay : Float32)
    (frames : Nat) :
    ch.unrouted.render table rate decay frames =
      ((ch.render table rate decay frames).1, (ch.render table rate decay frames).2.unrouted) := by
  have hprepare : ch.unrouted.prepare rate = (ch.prepare rate).unrouted := by
    rw [prepare_eq, prepare_eq]
    rfl
  simp only [render, hprepare, playMany_unrouted]

/-- Only the wave reads the table. -/
theorem play_table (ch : Channel) (table table' : WaveTable) (rate decay : Float32)
    (h : ch.voice.kind ≠ .wave) : ch.play table rate decay = ch.play table' rate decay := by
  have hscaled : ∀ ch : Channel, ch.voice.kind ≠ .wave →
      ch.playScaled table decay = ch.playScaled table' decay := by
    intro ch h
    have haverage : ch.voice.average table ch.volume ch.phaseInc ch.phase =
        ch.voice.average table' ch.volume ch.phaseInc ch.phase := by
      cases hvoice : ch.voice with
      | wave => exact absurd (by rw [hvoice]; rfl) h
      | square | noise => rfl
    simp only [playScaled, playMean, haverage]
  have hcount : ch.countLength.voice.kind ≠ .wave := h
  have hclock : (ch.countLength.clockEnvelope.clockSweep rate).voice.kind ≠ .wave := by
    rw [clockSweep_kind]
    exact h
  simp only [play, hscaled _ hclock]
  split
  · split
    · rfl
    · rename_i position hvoice
      exact absurd (by rw [hvoice]; rfl) hcount
    · rw [hscaled ch.countLength.clockEnvelope hcount]
  · rfl

theorem playMany_table (table table' : WaveTable) (rate decay : Float32) (n : Nat)
    (samples : Array Float32) {ch : Channel} (h : ch.voice.kind ≠ .wave) :
    playMany table rate decay n samples ch = playMany table' rate decay n samples ch := by
  induction n generalizing samples ch with
  | zero => rfl
  | succ n ih =>
    have hnext : (ch.play table rate decay).2.voice.kind ≠ .wave := by
      rw [play_kind]
      exact h
    simp only [playMany]
    rw [ih _ hnext, ch.play_table table table' rate decay h]

theorem render_table (ch : Channel) (table table' : WaveTable) (rate decay : Float32)
    (frames : Nat) (h : ch.voice.kind ≠ .wave) :
    ch.render table rate decay frames = ch.render table' rate decay frames := by
  have hprepare : (ch.prepare rate).voice.kind ≠ .wave := by
    rw [prepare_voice]
    exact h
  exact playMany_table table table' rate decay frames #[] hprepare

/-- A write that does not ask for the routing goes the same way without it. -/
theorem unrouted_receive (index : Fin 4) (value : UInt8) (rate : Float32) (ch : Channel)
    (register : Register) :
    (ch.receive index value rate register).unrouted =
      (ch.unrouted.receive index value rate register).unrouted := by
  cases register with
  | channel i number =>
    simp only [receive, apply_ite unrouted, unrouted_write]
    rfl
  | power => simp only [receive, apply_ite unrouted]; rfl
  | routing | volume | wave | unused => rfl

end Channel
end Sound

/-! ### What a channel hears of -/

namespace SoundUnit

open Register (powerAddress)

/-- The addresses that a channel hears of: its own five registers, the power register and, for the
wave, the wave table. -/
def hears (i : Fin 4) (address : UInt16) : Bool :=
  (0xFF10 + 5 * i.val ≤ address.toNat && address.toNat ≤ 0xFF14 + 5 * i.val) ||
    address == powerAddress || (i == Sound.wave && 0xFF30 ≤ address.toNat && address.toNat ≤ 0xFF3F)

/-- Whether an action concerns a channel: it plays or resets all of them, or it writes to an address
that the channel hears of. -/
def Action.concerns (i : Fin 4) : Action → Bool
  | .write address _ => hears i address
  | .render _ | .reset => true
  | .setMuted .. | .toggleMute _ | .setMasterVolume _ => false

/-- What lies at the addresses that a channel does not hear of. -/
theorem elsewhere_of_not_hears {i : Fin 4} {address : UInt16} (h : hears i address = false) :
    (∀ number, Register.ofAddress address ≠ .channel i number) ∧
      Register.ofAddress address ≠ .power ∧
      (i = Sound.wave → ∀ index, Register.ofAddress address ≠ .wave index) := by
  simp only [hears, Bool.or_eq_false_iff, Bool.and_eq_false_iff, decide_eq_false_iff_not,
    beq_eq_false_iff_ne, ne_eq] at h
  obtain ⟨⟨hown, hpower⟩, hwave⟩ := h
  have hlies := Register.liesAt_ofAddress address
  refine ⟨fun number hregister => ?_, fun hregister => ?_, fun hi index hregister => ?_⟩
  all_goals rw [hregister] at hlies
  · cases hlies with
    | channel hlies => omega
  · cases hlies with
    | power hlies => exact hpower (UInt16.toNat_inj.mp hlies)
  · cases hlies with
    | wave hlies => omega

/-- What there is to know of a channel. Its routing is the mixer's. -/
structure ChannelView where
  channel : Channel
  /-- Its bit of the power register. -/
  on : Bool
  scope : Array Float32

def channelView (unit : SoundUnit) (i : Fin 4) : ChannelView where
  channel := (unit.channels.get i).unrouted
  on := routes (unit.read powerAddress) i
  scope := unit.scopes.get i

/-- The power register: bit 7, and a bit for every channel that is on. -/
def powerBits (powered : Bool) (on : Vector Bool 4) : UInt8 :=
  ((if powered then (0x80 : UInt8) else 0) ||| (List.finRange 4).foldl
    (fun bits i => if on.get i then bits ||| (1 <<< UInt8.ofNat i) else bits) 0) ||| 0x70

theorem read_powerAddress (unit : SoundUnit) :
    unit.read powerAddress = powerBits unit.powered (unit.channels.map Channel.enabled) := by
  have hread : unit.read powerAddress =
      ((if unit.powered then (0x80 : UInt8) else 0) ||| unit.enabledBits) ||| 0x70 := rfl
  simp only [hread, powerBits, enabledBits, Vector.get_eq_getElem, Vector.getElem_map]
  rfl

theorem read_power (unit : SoundUnit) :
    (∀ i : Fin 4, routes (unit.read powerAddress) i = (unit.channels.get i).enabled) ∧
      (unit.read powerAddress &&& 0x80 == 0) = !unit.powered := by
  have hbits : ∀ powered : Bool, ∀ on : Vector Bool 4,
      (∀ i : Fin 4, routes (powerBits powered on) i = on.get i) ∧
        (powerBits powered on &&& 0x80 == 0) = !powered := by
    decide
  have hon : ∀ i : Fin 4,
      (unit.channels.map Channel.enabled).get i = (unit.channels.get i).enabled := by
    intro i
    simp only [Vector.get_eq_getElem, Vector.getElem_map]
  have h := hbits unit.powered (unit.channels.map Channel.enabled)
  simp only [hon] at h
  rwa [read_powerAddress]

/-- The bit of a channel in the power register tells whether it is on. -/
theorem routes_read_power (unit : SoundUnit) (i : Fin 4) :
    routes (unit.read powerAddress) i = (unit.channels.get i).enabled :=
  unit.read_power.1 i

@[simp] theorem writeRegister_sampleRate (unit : SoundUnit) (value : UInt8) (register : Register) :
    (unit.writeRegister value register).sampleRate = unit.sampleRate := by
  cases register <;> rfl

@[simp] theorem writeRegister_scopes (unit : SoundUnit) (value : UInt8) (register : Register) :
    (unit.writeRegister value register).scopes = unit.scopes := by
  cases register <;> rfl

/-- Two units that one channel cannot tell apart. -/
structure Alike (i : Fin 4) (a b : SoundUnit) : Prop where
  sampleRate_eq : a.sampleRate = b.sampleRate
  channel_eq : (a.channels.get i).unrouted = (b.channels.get i).unrouted
  scope_eq : a.scopes.get i = b.scopes.get i
  wave_eq : i = Sound.wave → a.wave = b.wave
  kind_eq : (a.channels.get i).voice.kind = (Voice.initial i).kind

namespace Alike

variable {i : Fin 4} {a b c : SoundUnit}

theorem enabled_eq (h : Alike i a b) :
    (a.channels.get i).enabled = (b.channels.get i).enabled := by
  have hon := congrArg Channel.enabled h.channel_eq
  exact hon

theorem kind_right (h : Alike i a b) :
    (b.channels.get i).voice.kind = (Voice.initial i).kind := by
  have hkind := congrArg (fun ch => ch.voice.kind) h.channel_eq
  exact hkind.symm.trans h.kind_eq

theorem symm (h : Alike i a b) : Alike i b a :=
  ⟨h.sampleRate_eq.symm, h.channel_eq.symm, h.scope_eq.symm, fun hi => (h.wave_eq hi).symm,
    h.kind_right⟩

theorem trans (hab : Alike i a b) (hbc : Alike i b c) : Alike i a c :=
  ⟨hab.sampleRate_eq.trans hbc.sampleRate_eq, hab.channel_eq.trans hbc.channel_eq,
    hab.scope_eq.trans hbc.scope_eq, fun hi => (hab.wave_eq hi).trans (hbc.wave_eq hi),
    hab.kind_eq⟩

theorem channelView_eq (h : Alike i a b) : a.channelView i = b.channelView i := by
  simp only [channelView, routes_read_power, h.channel_eq, h.enabled_eq, h.scope_eq]

theorem write (h : Alike i a b) (address : UInt16) (value : UInt8) :
    Alike i (a.write address value) (b.write address value) := by
  have hrate : a.rate = b.rate := by rw [rate, rate, h.sampleRate_eq]
  unfold SoundUnit.write
  constructor
  · simp only [writeRegister_sampleRate, h.sampleRate_eq]
  · simp only [writeRegister_channels, hrate]
    rw [Channel.unrouted_receive, h.channel_eq, ← Channel.unrouted_receive]
  · simp only [writeRegister_scopes, h.scope_eq]
  · intro hi
    cases Register.ofAddress address with
    | wave index => simp only [writeRegister, h.wave_eq hi]
    | channel | volume | routing | power | unused => exact h.wave_eq hi
  · exact (a.step_after (.write address value) i).kind_eq h.kind_eq

theorem play (h : Alike i a b) (frames : Nat) : Alike i (a.play frames) (b.play frames) := by
  have hrate : a.rate = b.rate := by rw [rate, rate, h.sampleRate_eq]
  -- Only the wave reads the table, and to the wave it is the same.
  have hrender : (a.channels.get i).unrouted.render a.wave a.rate (decayAt a.sampleRate) frames =
      (b.channels.get i).unrouted.render b.wave b.rate (decayAt b.sampleRate) frames := by
    rw [h.channel_eq, hrate, h.sampleRate_eq]
    by_cases hi : i = Sound.wave
    · rw [h.wave_eq hi]
    · apply Channel.render_table
      show (b.channels.get i).voice.kind ≠ .wave
      rw [h.kind_right]
      exact Voice.initial_kind_ne_wave hi
  rw [Channel.render_unrouted, Channel.render_unrouted] at hrender
  obtain ⟨hscope, hchannel⟩ := Prod.mk.inj hrender
  constructor
  · exact h.sampleRate_eq
  · simpa only [play_channels] using hchannel
  · simpa only [play_scopes] using hscope
  · exact h.wave_eq
  · exact (a.step_after (.render frames) i).kind_eq h.kind_eq

theorem reset (h : Alike i a b) : Alike i a.reset b.reset :=
  ⟨h.sampleRate_eq, rfl, rfl, fun _ => rfl, (a.step_after .reset i).kind_eq h.kind_eq⟩

/-- An action done in both units leaves them alike for the channel. -/
theorem after (h : Alike i a b) {action : Action} (haction : action.concerns i = true) :
    Alike i (a.after action) (b.after action) := by
  cases action with
  | write address value => exact h.write address value
  | render frames => exact h.play frames
  | reset => exact h.reset
  | setMuted | toggleMute | setMasterVolume => contradiction

end Alike

/-- What a channel does not hear of leaves it as it is, apart from its routing. -/
theorem alike_after {i : Fin 4} {unit : SoundUnit} {action : Action}
    (hkind : (unit.channels.get i).voice.kind = (Voice.initial i).kind)
    (haction : action.concerns i = false) : Alike i (unit.after action) unit := by
  have hkept := (unit.step_after action i).kind_eq hkind
  cases action with
  | write address value =>
    obtain ⟨hown, hpower, hwave⟩ := elsewhere_of_not_hears haction
    simp only [SoundUnit.after, SoundUnit.write] at hkept ⊢
    refine ⟨writeRegister_sampleRate .., ?_, by rw [writeRegister_scopes], fun hi => ?_, hkept⟩
    · rw [writeRegister_channels]
      cases hregister : Register.ofAddress address with
      | channel index number =>
        have hindex : index ≠ i := by
          rintro rfl
          exact hown number hregister
        rw [Channel.receive, if_neg hindex]
      | power => exact absurd hregister hpower
      | routing | volume | wave | unused => rfl
    · cases hregister : Register.ofAddress address with
      | wave index => exact absurd hregister (hwave hi index)
      | channel | volume | routing | power | unused => rfl
  | render | reset => contradiction
  | setMuted | toggleMute | setMasterVolume => exact ⟨rfl, rfl, rfl, fun _ => rfl, hkept⟩

/-- What there is to know of a channel after each action that concerns it. -/
def channelNotes (i : Fin 4) : SoundUnit → List Action → List ChannelView :=
  notes SoundUnit.after (Action.concerns i) fun unit action => (unit.after action).channelView i

/-- Channels do not interfere. Two runs from power-on in which the same is done of all that concerns
a channel, in the same order, leave this channel the same after every such action and at the end:
its state, its bit of the power register and its scope. What is written elsewhere and what is muted
makes no difference to it. -/
theorem channels_do_not_interfere (sampleRate : UInt32) (i : Fin 4) {actions others : List Action}
    (hsame : actions.filter (Action.concerns i) = others.filter (Action.concerns i)) :
    (new sampleRate).channelNotes i actions = (new sampleRate).channelNotes i others ∧
      ((new sampleRate).afterAll actions).channelView i =
        ((new sampleRate).afterAll others).channelView i := by
  have hown : KeptByOwn SoundUnit.after (Action.concerns i) (Alike i) actions others :=
    { left := fun _ _ haction _ _ h => (alike_after h.kind_eq haction).trans h
      right := fun _ _ haction _ _ h => h.trans (alike_after h.kind_right haction).symm }
  have hshared : ∀ action : Action, action.concerns i = true → ∀ a b, Alike i a b →
      (a.after action).channelView i = (b.after action).channelView i ∧
        Alike i (a.after action) (b.after action) :=
    fun action haction a b h => ⟨(h.after haction).channelView_eq, h.after haction⟩
  have hstart : Alike i (new sampleRate) (new sampleRate) :=
    ⟨rfl, rfl, rfl, fun _ => rfl, by rw [new_channels]; rfl⟩
  obtain ⟨hnotes, hend⟩ := (aligned_of_filter_eq hsame).notes_eq hown hshared hstart
  exact ⟨hnotes, hend.channelView_eq⟩

/-- The first channel sounds the same while it is routed away and muted and the wave is set up. -/
theorem channels_do_not_interfere_square1 :
    let actions : List Action := [.write 0xFF12 0xF0, .write 0xFF14 0x80, .render 2]
    let others : List Action := [.write 0xFF12 0xF0, .write 0xFF25 0xEE, .setMuted square1 true,
      .write 0xFF14 0x80, .write 0xFF1A 0x80, .write 0xFF30 0x12, .write 0xFF1E 0x80, .render 2]
    let unit := new 48000
    (unit.channelNotes square1 actions).map ChannelView.on = [false, true, true] ∧
      unit.channelNotes square1 actions = unit.channelNotes square1 others := by
  intro actions others unit
  have hsame : actions.filter (Action.concerns square1) =
      others.filter (Action.concerns square1) := rfl
  exact ⟨by decide +kernel, (channels_do_not_interfere 48000 square1 hsame).1⟩

end SoundUnit
end Chiptune
