import Chiptune.Deck.Status
import Chiptune.Proofs.SparedRuns
import Chiptune.Proofs.StoppedChannels

/-!
# The levels of stopped channels

A unit shows two things of each channel: its note, and its level on either side.
A channel that is off has no note. Its level asks only for the volume and the
routing, and stopping takes away neither: a channel that stops goes on showing
the level of the volume that it stopped with. This lasts until a write sets the
volume or the routing anew.

A square or the noise that has not been started since the unit was reset shows no
level, since its volume comes from a trigger; that of the wave is written to a register.
-/
namespace Chiptune
open Sound

namespace Sound

/-! ### Levels as numbers -/

/-- The distance of the highest from the lowest nibble. -/
def WaveTable.spread (table : WaveTable) : UInt8 :=
  let nibbles := table.toList.flatMap fun byte => [byte / 16, byte % 16]
  let low := nibbles.foldl min 15
  let high := nibbles.foldl max 0
  if low ≤ high then high - low else 0

theorem WaveTable.range_eq (table : WaveTable) : table.range = table.spread.toFloat32 / 15.0 := rfl

theorem foldl_max_le {bound : UInt8} {xs : List UInt8} (hxs : ∀ x ∈ xs, x ≤ bound)
    {highest : UInt8} (h : highest ≤ bound) : xs.foldl max highest ≤ bound := by
  induction xs generalizing highest with
  | nil => exact h
  | cons x rest ih =>
    have hhead : max highest x = if highest ≤ x then x else highest := rfl
    have hx : x ≤ bound := hxs x List.mem_cons_self
    apply ih fun y hy => hxs y (List.mem_cons_of_mem x hy)
    rw [hhead]
    split
    · exact hx
    · exact h

theorem WaveTable.spread_le (table : WaveTable) : table.spread ≤ 15 := by
  have hnibble : ∀ x ∈ table.toList.flatMap fun byte => [byte / 16, byte % 16], x ≤ 15 := by
    intro x hx
    obtain ⟨byte, -, hx⟩ := List.mem_flatMap.mp hx
    have hlt := byte.toNat_lt
    rw [UInt8.le_iff_toNat_le]
    obtain rfl | rfl : x = byte / 16 ∨ x = byte % 16 := by simpa using hx
    · rw [UInt8.toNat_div]
      exact Nat.le_of_lt_succ (Nat.div_lt_of_lt_mul hlt)
    · rw [UInt8.toNat_mod]
      exact Nat.le_of_lt_succ (Nat.mod_lt _ (by decide))
  have hhigh := foldl_max_le hnibble (UInt8.zero_le (a := 15))
  simp only [WaveTable.spread]
  split
  · rename_i hlow
    rw [UInt8.le_iff_toNat_le, UInt8.toNat_sub_of_le _ _ hlow]
    exact Nat.le_trans (Nat.sub_le _ _) (UInt8.le_iff_toNat_le.mp hhigh)
  · exact UInt8.zero_le

/-- The level of a wave, without rounding: its code takes that many thirds of the spread. -/
theorem waveShown_eq {volume spread : UInt8} (hzero : volume ≠ 0) (hvolume : volume ≤ 3)
    (hspread : spread ≤ 15) :
    ((5.0 * (4 - volume).toFloat32 * (spread.toFloat32 / 15.0)).toUInt8).toNat =
      (4 - volume.toNat) * spread.toNat / 3 := by
  have htable : ∀ v : Fin 4, ∀ s : Fin 16, v ≠ 0 →
      ((5.0 * (4 - UInt8.ofNat v).toFloat32 *
        ((UInt8.ofNat s).toFloat32 / 15.0)).toUInt8).toNat = (4 - v.val) * s.val / 3 := by
    decide +kernel
  have hv := Nat.lt_succ_of_le (UInt8.le_iff_toNat_le.mp hvolume)
  have hs := Nat.lt_succ_of_le (UInt8.le_iff_toNat_le.mp hspread)
  have hne : (⟨volume.toNat, hv⟩ : Fin 4) ≠ 0 := by
    intro h
    have hval : volume.toNat = 0 := congrArg Fin.val h
    exact hzero (UInt8.toNat_inj.mp hval)
  have h := htable ⟨volume.toNat, hv⟩ ⟨spread.toNat, hs⟩ hne
  simpa only [UInt8.ofNat_toNat] using h

namespace Channel

variable {ch other : Channel}

/-- The level that a channel's volume stands for. A wave's code takes a part of the spread of its
table. -/
def loudness (ch : Channel) (table : WaveTable) : Nat :=
  if ch.voice.kind = .wave then
    if ch.volume = 0 then 0 else (4 - ch.volume.toNat) * table.spread.toNat / 3
  else ch.volume.toNat

/-- Two channels agree on all that their levels come from. -/
structure SameLevel (ch other : Channel) : Prop where
  kind : ch.voice.kind = other.voice.kind
  volume : ch.volume = other.volume
  left : ch.left = other.left
  right : ch.right = other.right

/-! ### What stopping does to a level -/

/-- Only the third register and a trigger set a volume; the third register leaves it if the channel
is a square or noise that is off or loses its power. -/
theorem sameLevel_write {register : Fin 5} {value : UInt8} (rate : Float32)
    (hvolume : register = 2 →
      ch.voice.kind ≠ .wave ∧ (ch.enabled = false ∨ value &&& 0xF8 = 0))
    (hcontrol : register = 4 → value &&& 0x80 = 0) :
    (ch.write register value rate).SameLevel ch := by
  have hfields : (ch.write register value rate).volume = ch.volume ∧
      (ch.write register value rate).left = ch.left ∧
        (ch.write register value rate).right = ch.right := by
    match register with
    | 0 => simp only [write, writeFirst]; split <;> exact ⟨rfl, rfl, rfl⟩
    | 1 => simp only [write, writeLength]; split <;> exact ⟨rfl, rfl, rfl⟩
    | 2 =>
      obtain ⟨hkind, hidle⟩ := hvolume rfl
      simp only [write, writeVolume]
      split
      · rename_i position hvoice
        exact absurd (by rw [hvoice]; rfl) hkind
      · simp only [writeEnvelope]
        split
        · exact ⟨rfl, rfl, rfl⟩
        · rename_i hpowered
          have hoff : ch.enabled = false := hidle.resolve_right (by simpa using hpowered)
          rw [hoff, if_neg Bool.false_ne_true]
          exact ⟨rfl, rfl, rfl⟩
    | 3 => simp only [write, writeLow]; split <;> exact ⟨rfl, rfl, rfl⟩
    | 4 =>
      simp only [write, writeControl, writeHigh_eq]
      rw [if_neg (by simpa using hcontrol rfl)]
      exact ⟨rfl, rfl, rfl⟩
  exact ⟨ch.write_kind register value rate, hfields.1, hfields.2.1, hfields.2.2⟩

/-- A write that stops a channel takes its power. -/
theorem sameLevel_of_write_stops {kind : Voice.Kind} (h : ch.Fits kind) {register : Fin 5}
    {value : UInt8} {rate : Float32} (hon : ch.enabled = true)
    (hoff : (ch.write register value rate).enabled = false) :
    (ch.write register value rate).SameLevel ch := by
  apply sameLevel_write
  · rintro rfl
    simp only [write, writeVolume] at hoff
    split at hoff
    · rw [hon] at hoff
      contradiction
    · rename_i hvoice
      refine ⟨Voice.kind_ne_wave hvoice, .inr ?_⟩
      by_contra hpower
      simp [writeEnvelope, hpower, hon] at hoff
  · rintro rfl
    by_contra htrigger
    have hpowered : (ch.writeHigh value).powered = ch.powered := by
      rw [writeHigh_eq]
    rw [write, writeControl_of_trigger htrigger, trigger_eq] at hoff
    simp only [hpowered, h.powered hon] at hoff
    contradiction

theorem clockSweep_volume (ch : Channel) (rate : Float32) :
    (ch.clockSweep rate).volume = ch.volume := by
  simp only [clockSweep]
  split
  · split <;> rfl
  · rfl

/-- The volume that a channel stops with in a sample. When its length runs out its volume stays;
when its sweep overflows the envelope has had its turn before. -/
def lastVolume (ch : Channel) : UInt8 :=
  if ch.length.expires then ch.volume else (ch.envelope.clock ch.volume).2

theorem volume_of_play_stops (table : WaveTable) (rate decay : Float32) (hon : ch.enabled = true)
    (hoff : (ch.play table rate decay).2.enabled = false) :
    (ch.play table rate decay).2.volume = ch.lastVolume := by
  rw [lastVolume]
  have hcount : ch.countLength.enabled = !ch.length.expires := by simp [countLength, hon]
  by_cases hexpires : ch.length.expires = true
  · have hstopped : ¬ch.countLength.enabled = true := by simp [hcount, hexpires]
    rw [play, if_neg hstopped, if_pos hexpires]
    rfl
  · have hcounted : ch.countLength.enabled = true := by simpa [hcount] using hexpires
    simp only [play, if_pos hcounted, if_neg hexpires] at hoff ⊢
    -- A channel that gets as far as its voice is still on after the sample.
    split at hoff
    · split at hoff
      · rename_i hclocked
        simp [playScaled, playMean_enabled, hclocked] at hoff
      · rename_i hclocked
        rw [if_neg hclocked]
        exact clockSweep_volume _ rate
    · simp [playWave, playMean_enabled, hcounted] at hoff
    · simp [playScaled, playMean_enabled, clockEnvelope, hcounted] at hoff

theorem sameLevel_prepare (ch : Channel) (rate : Float32) : (ch.prepare rate).SameLevel ch := by
  rw [prepare_eq]
  exact ⟨rfl, rfl, rfl, rfl⟩

theorem sameLevel_render_of_off (h : ch.enabled = false) (table : WaveTable)
    (rate decay : Float32) (frames : Nat) :
    (ch.render table rate decay frames).2.SameLevel ch := by
  rw [render_frozen table rate decay frames h]
  exact ⟨rfl, rfl, rfl, rfl⟩

/-! ### Channels that have not been started -/

/-- A square or the noise before it is started for the first time. -/
structure Unstarted (ch : Channel) : Prop where
  kind : ch.voice.kind ≠ .wave
  off : ch.enabled = false
  volume : ch.volume = 0
  /-- A trigger without power takes over an initial volume of zero. -/
  initialVolume : ch.powered = false → ch.initialVolume = 0

theorem high_nibble_eq_zero {value : UInt8} (h : value &&& 0xF8 = 0) : value >>> 4 = 0 := by
  have hbits : ∀ n : Fin 256, UInt8.ofNat n &&& 0xF8 = 0 → UInt8.ofNat n >>> 4 = 0 := by
    decide +kernel
  have hvalue := hbits ⟨value.toNat, value.toNat_lt⟩
  simp only [UInt8.ofNat_toNat] at hvalue
  exact hvalue h

theorem Unstarted.initialVolume_write (h : ch.Unstarted) {register : Fin 5} {value : UInt8}
    (hcontrol : ¬(register = 4 ∧ value &&& 0x80 ≠ 0)) (rate : Float32)
    (hpowered : (ch.write register value rate).powered = false) :
    (ch.write register value rate).initialVolume = 0 := by
  match register with
  | 0 =>
    simp only [Channel.write, writeFirst] at hpowered ⊢
    split at hpowered
    · exact h.initialVolume hpowered
    · rename_i position hvoice
      exact absurd (by rw [hvoice]; rfl) h.kind
    · exact h.initialVolume hpowered
  | 1 =>
    simp only [Channel.write, writeLength] at hpowered ⊢
    split at hpowered <;> exact h.initialVolume hpowered
  | 2 =>
    simp only [Channel.write, writeVolume] at hpowered ⊢
    split at hpowered
    · rename_i position hvoice
      exact absurd (by rw [hvoice]; rfl) h.kind
    · simp only [writeEnvelope, h.off] at hpowered ⊢
      split at hpowered
      · rename_i hvalue
        rw [if_pos hvalue]
        exact high_nibble_eq_zero (by simpa using hvalue)
      · rename_i hvalue
        exact absurd hpowered (by simpa using hvalue)
  | 3 =>
    simp only [Channel.write, writeLow] at hpowered ⊢
    split at hpowered <;> exact h.initialVolume hpowered
  | 4 =>
    have hbit : value &&& 0x80 = 0 := by simpa using hcontrol
    simp only [Channel.write, writeControl, writeHigh_eq] at hpowered ⊢
    rw [if_neg (by simpa using hbit)] at hpowered ⊢
    exact h.initialVolume hpowered

theorem Unstarted.write (h : ch.Unstarted) {register : Fin 5} {value : UInt8}
    (hstart : register = 4 → value &&& 0x80 ≠ 0 → ch.powered = false) (rate : Float32) :
    (ch.write register value rate).Unstarted := by
  have hoff : (ch.write register value rate).enabled = false := by
    by_contra hon
    obtain hbefore | ⟨rfl, htrigger, hpowered⟩ := enabled_of_write (by simpa using hon)
    · rw [h.off] at hbefore
      contradiction
    · rw [hstart rfl htrigger] at hpowered
      contradiction
  have hkind : (ch.write register value rate).voice.kind ≠ .wave := by
    rw [write_kind]
    exact h.kind
  by_cases htrigger : register = 4 ∧ value &&& 0x80 ≠ 0
  · obtain ⟨rfl, htrigger⟩ := htrigger
    have hzero := h.initialVolume (hstart rfl htrigger)
    rw [Channel.write, writeControl_of_trigger htrigger, trigger_eq, writeHigh_eq] at hkind hoff ⊢
    exact ⟨hkind, hoff, hzero, fun _ => hzero⟩
  · have hsame : (ch.write register value rate).SameLevel ch := by
      refine sameLevel_write rate (fun _ => ⟨h.kind, .inl h.off⟩) fun hcontrol => ?_
      by_contra hbit
      exact htrigger ⟨hcontrol, hbit⟩
    exact ⟨hkind, hoff, hsame.volume.trans h.volume, h.initialVolume_write htrigger rate⟩

end Channel
end Sound

namespace SoundUnit

variable {unit other : SoundUnit} {i : Fin 4}

theorem toNat_shownVolume {kind : Voice.Kind} {ch : Channel} (h : ch.Fits kind) (unit : SoundUnit)
    (routed : Bool) :
    (unit.shownVolume ch routed).toNat = if routed then ch.loudness unit.wave else 0 := by
  have hkind := h.kind_eq
  have hvolume := h.volume
  simp only [shownVolume, Channel.loudness]
  cases routed with
  | false => split <;> rfl
  | true =>
    simp only [if_true]
    split
    · rename_i position hvoice
      rw [hvoice] at hkind ⊢
      subst hkind
      rw [if_pos (c := (Voice.wave position).kind = .wave) rfl]
      by_cases hzero : ch.volume = 0
      · simp [hzero]
      · rw [if_neg hzero, if_neg (by simpa using hzero), WaveTable.range_eq]
        exact waveShown_eq hzero hvolume unit.wave.spread_le
    · rename_i hvoice
      rw [if_neg (Voice.kind_ne_wave hvoice)]

theorem level_fst (h : unit.Fits) (i : Fin 4) :
    (unit.level i).1.toNat =
      if (unit.channels.get i).left then (unit.channels.get i).loudness unit.wave else 0 :=
  toNat_shownVolume (h i) unit _

theorem level_snd (h : unit.Fits) (i : Fin 4) :
    (unit.level i).2.toNat =
      if (unit.channels.get i).right then (unit.channels.get i).loudness unit.wave else 0 :=
  toNat_shownVolume (h i) unit _

theorem level_eq_zero_iff (h : unit.Fits) (i : Fin 4) :
    unit.level i = (0, 0) ↔
      ((unit.channels.get i).left = true ∨ (unit.channels.get i).right = true →
        (unit.channels.get i).loudness unit.wave = 0) := by
  rw [Prod.ext_iff, ← UInt8.toNat_inj, ← UInt8.toNat_inj, level_fst h, level_snd h]
  cases (unit.channels.get i).left <;> cases (unit.channels.get i).right <;> simp

/-- Only the wave reads the table. -/
theorem level_eq_of_sameLevel (hunit : unit.Fits) (hother : other.Fits)
    (h : (other.channels.get i).SameLevel (unit.channels.get i))
    (htable : i = Sound.wave → other.wave = unit.wave) : other.level i = unit.level i := by
  have hloudness : (other.channels.get i).loudness other.wave =
      (unit.channels.get i).loudness unit.wave := by
    simp only [Channel.loudness, h.kind, h.volume]
    by_cases hi : i = Sound.wave
    · rw [htable hi]
    · have hkind := Voice.initial_kind_ne_wave hi
      rw [← (hunit i).kind_eq] at hkind
      rw [if_neg hkind, if_neg hkind]
  apply Prod.ext
  · rw [← UInt8.toNat_inj, level_fst hother, level_fst hunit, hloudness, h.left]
  · rw [← UInt8.toNat_inj, level_snd hother, level_snd hunit, hloudness, h.right]

/-! ### Stopped channels in a run -/

/-- Whether a write sets the volume of a channel that is off, its routing, or the table that its
level is taken from. -/
def setsLevel (i : Fin 4) (value : UInt8) : Register → Bool
  | .channel index number =>
    index == i && ((number.val == 4 && value &&& 0x80 != 0) || (number.val == 2 && i == Sound.wave))
  | .routing => true
  | .wave _ => i == Sound.wave
  | .volume | .power | .unused => false

def Action.setsLevel (i : Fin 4) : Action → Bool
  | .write address value => SoundUnit.setsLevel i value (Register.ofAddress address)
  | .reset => true
  | .render _ | .setMuted .. | .toggleMute _ | .setMasterVolume _ => false

theorem starts_eq_false_of_setsLevel {action : Action} (h : action.setsLevel i = false) :
    unit.starts i action = false := by
  cases action with
  | write address value =>
    by_contra hstarts
    simp only [starts, Bool.not_eq_false, Bool.and_eq_true, beq_iff_eq] at hstarts
    obtain ⟨⟨rfl, htrigger⟩, -⟩ := hstarts
    simp [Action.setsLevel, SoundUnit.setsLevel, ofAddress_controlAddress, htrigger] at h
  | render | reset | setMuted | toggleMute | setMasterVolume => rfl

theorem sameLevel_after_of_off (hunit : unit.Voiced) (hoff : (unit.channels.get i).enabled = false)
    {action : Action} (haction : action.setsLevel i = false) :
    ((unit.after action).channels.get i).SameLevel (unit.channels.get i) ∧
      (i = Sound.wave → (unit.after action).wave = unit.wave) := by
  cases action with
  | write address value =>
    simp only [after, SoundUnit.write, writeRegister_channels]
    simp only [Action.setsLevel] at haction
    cases hregister : Register.ofAddress address with
    | channel index number =>
      refine ⟨?_, fun _ => rfl⟩
      rw [Channel.receive]
      by_cases hindex : index = i
      · subst hindex
        rw [if_pos rfl]
        obtain ⟨hcontrol, hcode⟩ : (number = 4 → value &&& 0x80 = 0) ∧
            (number = 2 → index ≠ Sound.wave) := by
          simpa [SoundUnit.setsLevel, hregister, Fin.ext_iff] using haction
        refine Channel.sameLevel_write unit.rate (fun htwo => ⟨?_, .inl hoff⟩) hcontrol
        rw [hunit index]
        exact Voice.initial_kind_ne_wave (hcode htwo)
      · rw [if_neg hindex]
        exact ⟨rfl, rfl, rfl, rfl⟩
    | routing => simp [SoundUnit.setsLevel, hregister] at haction
    | wave index =>
      refine ⟨⟨rfl, rfl, rfl, rfl⟩, fun hi => ?_⟩
      simp [SoundUnit.setsLevel, hregister, hi] at haction
    | power =>
      refine ⟨?_, fun _ => rfl⟩
      rw [Channel.receive]
      split <;> exact ⟨rfl, rfl, rfl, rfl⟩
    | volume | unused => exact ⟨⟨rfl, rfl, rfl, rfl⟩, fun _ => rfl⟩
  | render frames =>
    simp only [after, render_snd, play_channels]
    exact ⟨Channel.sameLevel_render_of_off hoff _ _ _ frames, fun _ => rfl⟩
  | reset => contradiction
  | setMuted | toggleMute | setMasterVolume => exact ⟨⟨rfl, rfl, rfl, rfl⟩, fun _ => rfl⟩

/-- A channel that is off keeps its level as long as no write sets it. -/
theorem level_afterAll_of_off {sampleRate : UInt32} (hunit : Reached sampleRate unit)
    (hoff : (unit.channels.get i).enabled = false) {later : List Action}
    (hlater : later.any (Action.setsLevel i) = false) :
    (unit.afterAll later).level i = unit.level i := by
  induction later generalizing unit with
  | nil => rfl
  | cons action rest ih =>
    rw [List.any_cons, Bool.or_eq_false_iff] at hlater
    obtain ⟨haction, hrest⟩ := hlater
    have hstill : ((unit.after action).channels.get i).enabled = false :=
      enabled_eq_false_of_startsIn [action] hoff
        (by simp [startsIn, starts_eq_false_of_setsLevel haction])
    obtain ⟨hsame, htable⟩ := sameLevel_after_of_off hunit.voiced hoff haction
    rw [afterAll_cons, ih (hunit.after action) hstill hrest]
    exact level_eq_of_sameLevel hunit.fits (hunit.after action).fits hsame htable

/-- A write that stops a channel leaves its level. -/
theorem level_of_write_stops {sampleRate : UInt32} (hunit : Reached sampleRate unit)
    {address : UInt16} {value : UInt8} (hon : (unit.channels.get i).enabled = true)
    (hoff : ((unit.write address value).channels.get i).enabled = false) :
    (unit.write address value).level i = unit.level i := by
  have hreached : Reached sampleRate (unit.write address value) :=
    hunit.after (.write address value)
  -- A write to the routing or to the table stops no channel.
  have hsame : ((unit.write address value).channels.get i).SameLevel (unit.channels.get i) ∧
      (unit.write address value).wave = unit.wave := by
    simp only [SoundUnit.write, writeRegister_channels] at hoff ⊢
    cases hregister : Register.ofAddress address with
    | channel index number =>
      rw [hregister, Channel.receive] at hoff
      refine ⟨?_, rfl⟩
      rw [Channel.receive]
      by_cases hindex : index = i
      · rw [if_pos hindex] at hoff ⊢
        exact Channel.sameLevel_of_write_stops (hunit.fits i) hon hoff
      · rw [if_neg hindex, hon] at hoff
        contradiction
    | power =>
      refine ⟨?_, rfl⟩
      rw [Channel.receive]
      split <;> exact ⟨rfl, rfl, rfl, rfl⟩
    | routing | volume | wave | unused =>
      rw [hregister, Channel.receive, hon] at hoff
      contradiction
  exact level_eq_of_sameLevel hunit.fits hreached.fits hsame.1 fun _ => hsame.2

theorem unstarted_reset (unit : SoundUnit) (hi : i ≠ Sound.wave) :
    (unit.reset.channels.get i).Unstarted := by
  have hinitial : unit.reset.channels.get i = Channel.initial i := new_channels unit.sampleRate i
  rw [hinitial]
  exact ⟨Voice.initial_kind_ne_wave hi, rfl, rfl, fun _ => rfl⟩

theorem unstarted_after (h : (unit.channels.get i).Unstarted) {action : Action}
    (hstarts : unit.starts i action = false) (hi : i ≠ Sound.wave) :
    ((unit.after action).channels.get i).Unstarted := by
  cases action with
  | write address value =>
    simp only [after, SoundUnit.write, writeRegister_channels]
    cases hregister : Register.ofAddress address with
    | channel index number =>
      rw [Channel.receive]
      by_cases hindex : index = i
      · subst hindex
        rw [if_pos rfl]
        refine h.write (fun hcontrol htrigger => ?_) unit.rate
        subst hcontrol
        simpa [starts, eq_controlAddress hregister, htrigger] using hstarts
      · rw [if_neg hindex]
        exact h
    | routing => exact ⟨h.kind, h.off, h.volume, h.initialVolume⟩
    | power =>
      rw [Channel.receive]
      split
      · exact h
      · exact ⟨h.kind, rfl, h.volume, h.initialVolume⟩
    | volume | wave | unused => exact h
  | render frames =>
    simp only [after, render_snd, play_channels]
    rw [Channel.render_frozen _ _ _ _ h.off]
    exact ⟨h.kind, h.off, h.volume, h.initialVolume⟩
  | reset => exact unstarted_reset unit hi
  | setMuted | toggleMute | setMasterVolume => exact h

theorem unstarted_afterAll (h : (unit.channels.get i).Unstarted) {later : List Action}
    (hlater : unit.startsIn i later = false) (hi : i ≠ Sound.wave) :
    ((unit.afterAll later).channels.get i).Unstarted := by
  induction later generalizing unit with
  | nil => exact h
  | cons action rest ih =>
    rw [startsIn, Bool.or_eq_false_iff] at hlater
    exact ih (unstarted_after h hlater.1 hi) hlater.2

theorem level_of_unstarted (hfits : unit.Fits) (h : (unit.channels.get i).Unstarted) :
    unit.level i = (0, 0) := by
  rw [level_eq_zero_iff hfits, Channel.loudness, if_neg h.kind, h.volume]
  exact fun _ => rfl

theorem level_play_zero {sampleRate : UInt32} (hunit : Reached sampleRate unit) (i : Fin 4) :
    (unit.play 0).level i = unit.level i := by
  have hreached : Reached sampleRate (unit.play 0) := hunit.after (.render 0)
  refine level_eq_of_sameLevel hunit.fits hreached.fits ?_ fun _ => rfl
  rw [play_channels]
  exact Channel.sameLevel_prepare _ _

theorem sameLevel_of_play_stops {n : Nat} (hon : ((unit.play n).channels.get i).enabled = true)
    (hoff : ((unit.play (n + 1)).channels.get i).enabled = false) :
    let before := (unit.play n).channels.get i
    ((unit.play (n + 1)).channels.get i).SameLevel { before with volume := before.lastVolume } := by
  intro before
  have hsides : ∀ frames, ((unit.play frames).channels.get i).left = (unit.channels.get i).left ∧
      ((unit.play frames).channels.get i).right = (unit.channels.get i).right := by
    intro frames
    rw [play_channels]
    exact Channel.render_sides _ _ _ _ frames
  have hvolume : ((unit.play (n + 1)).channels.get i).volume = before.lastVolume := by
    rw [play_succ_channels] at hoff ⊢
    exact Channel.volume_of_play_stops _ _ _ hon hoff
  refine ⟨?_, hvolume, (hsides (n + 1)).1.trans (hsides n).1.symm,
    (hsides (n + 1)).2.trans (hsides n).2.symm⟩
  rw [play_succ_channels]
  exact Channel.play_kind _ _ _ _

theorem note?_of_off (hoff : (unit.channels.get i).enabled = false) : unit.note? i = none := by
  have hsilent : unit.isSilent i = true := by
    have hoff : unit.channels[i.val].enabled = false := hoff
    simp [isSilent, hoff]
  rw [note?, if_pos hsilent]

/-- A stopped channel has no note, but it goes on showing a level. The level of a channel on each
side, on or off, is what its volume stands for, if it is routed there. When a channel is off, the
levels agree with the note on its silence exactly if it is routed to no side or its volume stands
for no level, and the status shows both. A write that stops a channel leaves its levels, and so does
the start of a period, which stops slow noise. A channel that stops in a frame keeps kind and
routing, and its volume too if its length has run out; if its sweep has overflowed, its envelope has
moved the volume in that frame. From then on its levels stay as they are until a write sets its
volume, its routing or, for the wave, its table. A square or the noise that has not been
started since the unit was reset shows no level. -/
theorem level_outlives_channel {sampleRate : UInt32} (hunit : Reached sampleRate unit)
    (i : Fin 4) :
    let ch := unit.channels.get i
    ((unit.level i).1.toNat = (if ch.left then ch.loudness unit.wave else 0) ∧
        (unit.level i).2.toNat = if ch.right then ch.loudness unit.wave else 0) ∧
      (ch.enabled = false → unit.note? i = none ∧
        (unit.level i = (0, 0) ↔ (ch.left = true ∨ ch.right = true → ch.loudness unit.wave = 0)) ∧
        ∀ deck : Deck, deck.memory.sound = unit → deck.isMuted i = false →
          deck.channelStatus i = toString (i.val + 1) ++ " " ++ "..." ++ " " ++
            String.ofList [levelDigit (unit.level i).1, levelDigit (unit.level i).2]) ∧
      (∀ address value, ch.enabled = true →
        ((unit.write address value).channels.get i).enabled = false →
          (unit.write address value).level i = unit.level i) ∧
      (unit.play 0).level i = unit.level i ∧
      (∀ n,
        let before := (unit.play n).channels.get i
        let next := (unit.play (n + 1)).channels.get i
        before.enabled = true → next.enabled = false →
          next.SameLevel { before with volume := before.lastVolume }) ∧
      (∀ later : List Action, ch.enabled = false → later.any (Action.setsLevel i) = false →
        (unit.afterAll later).level i = unit.level i) ∧
      ∀ later : List Action, i ≠ Sound.wave → unit.reset.startsIn i later = false →
        (unit.reset.afterAll later).level i = (0, 0) := by
  intro ch
  refine ⟨⟨level_fst hunit.fits i, level_snd hunit.fits i⟩, fun hoff =>
      ⟨note?_of_off hoff, level_eq_zero_iff hunit.fits i, ?_⟩,
    fun address value => level_of_write_stops hunit, level_play_zero hunit i,
    fun n => sameLevel_of_play_stops, fun later hoff => level_afterAll_of_off hunit hoff,
    fun later hi hstarts => ?_⟩
  · rintro deck rfl hmuted
    have hnote : deck.memory.sound.note? i = none := note?_of_off hoff
    rw [Deck.channelStatus, hmuted, hnote]
    rfl
  · have hreset : Reached sampleRate unit.reset := hunit.after .reset
    have hfits : (unit.reset.afterAll later).Fits :=
      afterAll_induction (fun _ action h => h.after action) hreset.fits later
    exact level_of_unstarted hfits (unstarted_afterAll (unstarted_reset unit hi) hstarts hi)

/-- The length of a tone runs out in the fifth frame. It shows its level ever after, also while it
is given another frequency. -/
theorem level_outlives_channel_expired :
    let unit := (new 1024).afterAll [.write 0xFF26 0x80, .write 0xFF25 0xFF, .write 0xFF11 0x3F,
      .write 0xFF12 0xF0, .write 0xFF14 0xC0, .render 5]
    let later : List Action := [.write 0xFF13 0x10, .render 3]
    (unit.channels.get square1).enabled = false ∧
      later.any (Action.setsLevel square1) = false ∧ unit.note? square1 = none ∧
      (unit.afterAll later).level square1 = (15, 15) := by
  intro unit later
  have hunit : Reached 1024 unit := ⟨_, rfl⟩
  have hoff : (unit.channels.get square1).enabled = false := by decide +kernel
  have hlater : later.any (Action.setsLevel square1) = false := by decide +kernel
  have hlevel : unit.level square1 = (15, 15) := by decide +kernel
  obtain ⟨-, hnote, -, -, -, hstays, -⟩ := level_outlives_channel hunit square1
  exact ⟨hoff, hlater, (hnote hoff).1, (hstays later hoff hlater).trans hlevel⟩

/-- A channel that reads as off, whose length has run out, has no note and shows full levels. -/
theorem expired_channel_shows_level :
    let unit := (new 1024).afterAll [.write 0xFF26 0x80, .write 0xFF25 0xFF, .write 0xFF11 0x3F,
      .write 0xFF12 0xF0, .write 0xFF14 0xC0, .render 5]
    routes (unit.read Register.powerAddress) square1 = false ∧ unit.note? square1 = none ∧
      unit.level square1 = (15, 15) := by
  decide +kernel

end SoundUnit
end Chiptune
