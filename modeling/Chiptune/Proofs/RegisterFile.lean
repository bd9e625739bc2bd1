import Chiptune.Proofs.SoundBounds

/-!
# The register file

The unit keeps its registers as they were last written, and besides it keeps in
its channels what it has decoded from them. The two never drift apart: after
every run, each decoded field is the decoding of the file as it stands. Only the
frequency of the first channel is not, which the sweep moves away from what was
written.

`Setup` is what the file says about one channel, and `Channel.Decodes` is the
invariant. A write changes a register of the setup and the fields that are
decoded from it; everything else leaves the setup alone, and so it must leave
the decoded fields alone, which takes the most care where playing and triggering
write to fields next to them.
-/
namespace Chiptune
open Sound

namespace Sound

/-! ### Decoding -/

/-- What the register file says about a channel: its five registers, and its bits of the routing. -/
structure Setup where
  first : UInt8
  length : UInt8
  volume : UInt8
  low : UInt8
  control : UInt8
  left : Bool
  right : Bool
  deriving DecidableEq

def Setup.write (setup : Setup) (register : Fin 5) (value : UInt8) : Setup :=
  match register with
  | 0 => { setup with first := value }
  | 1 => { setup with length := value }
  | 2 => { setup with volume := value }
  | 3 => { setup with low := value }
  | 4 => { setup with control := value }

def highBits (control : UInt8) : UInt16 := (control &&& 0x07).toUInt16 <<< 8

/-- The frequency of a tone: the fourth register, under three bits of the fifth. -/
def elevenBits (low control : UInt8) : UInt16 := low.toUInt16 ||| highBits control

namespace Voice.Kind

/-- The first channel is a square with a sweep. -/
def ofIndex : Fin 4 → Kind
  | 0 => .sweptSquare
  | 1 => .square
  | 2 => .wave
  | 3 => .noise

/-- The wave has a switch; the others have power unless their volume starts at zero and falls. -/
def powered (kind : Kind) (setup : Setup) : Bool :=
  match kind with
  | .wave => setup.first &&& 0x80 != 0
  | _ => setup.volume &&& 0xF8 != 0

def initialVolume (kind : Kind) (setup : Setup) : UInt8 :=
  match kind with
  | .wave => (setup.volume >>> 5) &&& 0x03
  | _ => setup.volume >>> 4

def load (kind : Kind) (setup : Setup) : UInt16 :=
  match kind with
  | .wave => setup.length.toUInt16
  | _ => (setup.length &&& 0x3F).toUInt16

/-- Noise has a clock shift in place of a frequency. -/
def frequency (kind : Kind) (setup : Setup) : UInt16 :=
  match kind with
  | .noise => (setup.low >>> 4).toUInt16
  | _ => elevenBits setup.low setup.control

/-- A voice of the kind, as it is before its first cell. -/
def voice (kind : Kind) (setup : Setup) : Voice :=
  match kind with
  | .sweptSquare | .square => .square (setup.length >>> 6) 0 none
  | .wave => .wave 0
  | .noise => .noise 0 (setup.low &&& 0x08 != 0) (setup.low &&& 0x07)

end Voice.Kind

/-- A voice at its first cell and without its sweep, with what its registers say. -/
def Voice.rewound : Voice → Voice
  | .square duty _ _ => .square duty 0 none
  | .wave _ => .wave 0
  | .noise _ short divisor => .noise 0 short divisor

/-- The decoded fields of a channel are the decoding of its setup. -/
structure Channel.Decodes (kind : Voice.Kind) (setup : Setup) (ch : Channel) : Prop where
  kind_eq : ch.voice.kind = kind
  voice : ch.voice.rewound = kind.voice setup
  powered : ch.powered = kind.powered setup
  initialVolume : ch.initialVolume = kind.initialVolume setup
  /-- The volume of the wave has no envelope; that of the others is not decoded. -/
  waveVolume : kind = .wave → ch.volume = kind.initialVolume setup
  envelopeRegister : kind ≠ .wave → ch.envelopeRegister = setup.volume
  sweepRegister : kind = .sweptSquare → ch.sweepRegister = setup.first
  /-- A sweep rewrites the frequency. -/
  frequency : kind ≠ .sweptSquare → ch.frequency = kind.frequency setup
  load : ch.length.load = kind.load setup
  counting : ch.length.enabled = (setup.control &&& 0x40 != 0)
  left : ch.left = setup.left
  right : ch.right = setup.right

/-- Two channels with a kind of voice have the same decoded fields. -/
structure Channel.Agrees (kind : Voice.Kind) (ch other : Channel) : Prop where
  voice : ch.voice.rewound = other.voice.rewound
  powered : ch.powered = other.powered
  initialVolume : ch.initialVolume = other.initialVolume
  waveVolume : kind = .wave → ch.volume = other.volume
  envelopeRegister : kind ≠ .wave → ch.envelopeRegister = other.envelopeRegister
  sweepRegister : kind = .sweptSquare → ch.sweepRegister = other.sweepRegister
  frequency : kind ≠ .sweptSquare → ch.frequency = other.frequency
  load : ch.length.load = other.length.load
  counting : ch.length.enabled = other.length.enabled
  left : ch.left = other.left
  right : ch.right = other.right

/-- A setup leaves nothing open: it determines every decoded field. -/
theorem Channel.Decodes.agrees {kind : Voice.Kind} {setup : Setup} {ch other : Channel}
    (h : ch.Decodes kind setup) (hother : other.Decodes kind setup) : ch.Agrees kind other where
  voice := h.voice.trans hother.voice.symm
  powered := h.powered.trans hother.powered.symm
  initialVolume := h.initialVolume.trans hother.initialVolume.symm
  waveVolume hkind := (h.waveVolume hkind).trans (hother.waveVolume hkind).symm
  envelopeRegister hkind := (h.envelopeRegister hkind).trans (hother.envelopeRegister hkind).symm
  sweepRegister hkind := (h.sweepRegister hkind).trans (hother.sweepRegister hkind).symm
  frequency hkind := (h.frequency hkind).trans (hother.frequency hkind).symm
  load := h.load.trans hother.load.symm
  counting := h.counting.trans hother.counting.symm
  left := h.left.trans hother.left.symm
  right := h.right.trans hother.right.symm

/-! ### Bits of a frequency -/

theorem or_and_distrib (x y mask : UInt16) :
    (x ||| y) &&& mask = (x &&& mask) ||| (y &&& mask) := by
  rw [← UInt16.toNat_inj]
  simp only [UInt16.toNat_and, UInt16.toNat_or]
  exact Nat.and_or_distrib_right ..

theorem low_and_masks : ∀ low : UInt8,
    low.toUInt16 &&& 0x0700 = 0 ∧ low.toUInt16 &&& 0x00FF = low.toUInt16 := by
  decide +kernel

theorem highBits_and_masks : ∀ control : UInt8,
    highBits control &&& 0x0700 = highBits control ∧ highBits control &&& 0x00FF = 0 := by
  decide +kernel

theorem mul_eq_highBits : ∀ control : UInt8,
    (control &&& 0x07).toUInt16 * 256 = highBits control := by
  decide +kernel

theorem elevenBits_low (low control value : UInt8) :
    (elevenBits low control &&& 0x0700) ||| value.toUInt16 = elevenBits value control := by
  rw [elevenBits, or_and_distrib, (low_and_masks low).1, (highBits_and_masks control).1,
    UInt16.zero_or, UInt16.or_comm, elevenBits]

theorem elevenBits_high (low control value : UInt8) :
    (elevenBits low control &&& 0x00FF) ||| (value &&& 0x07).toUInt16 * 256 =
      elevenBits low value := by
  rw [elevenBits, or_and_distrib, (low_and_masks low).2, (highBits_and_masks control).2,
    mul_eq_highBits, UInt16.or_zero, elevenBits]

/-! ### Writing -/

namespace Channel

variable {kind : Voice.Kind} {setup : Setup} {ch : Channel}

theorem Decodes.off (h : ch.Decodes kind setup) : { ch with enabled := false }.Decodes kind setup :=
  { h with }

theorem Decodes.writeFirst (h : ch.Decodes kind setup) (value : UInt8) :
    (ch.writeFirst value).Decodes kind { setup with first := value } := by
  have hkind := h.kind_eq
  simp only [Channel.writeFirst]
  split
  · rename_i duty step sweep hv
    rw [hv] at hkind
    subst hkind
    cases sweep <;> exact { h with sweepRegister := fun _ => rfl }
  · rename_i position hv
    rw [hv] at hkind
    obtain rfl : .wave = kind := hkind
    exact { h with powered := rfl, sweepRegister := fun hswept => absurd hswept (by decide) }
  · rename_i lfsr short divisor hv
    rw [hv] at hkind
    obtain rfl : .noise = kind := hkind
    exact { h with sweepRegister := fun hswept => absurd hswept (by decide) }

theorem Decodes.writeLength (h : ch.Decodes kind setup) (value : UInt8) :
    (ch.writeLength value).Decodes kind { setup with length := value } := by
  have hkind := h.kind_eq
  simp only [Channel.writeLength]
  split
  · rename_i duty step sweep hv
    rw [hv] at hkind
    subst hkind
    cases sweep <;> exact { h with kind_eq := rfl, voice := rfl, load := rfl }
  · rename_i position hv
    rw [hv] at hkind
    subst hkind
    exact { h with load := rfl }
  · rename_i lfsr short divisor hv
    rw [hv] at hkind
    subst hkind
    exact { h with load := rfl }

theorem Decodes.writeEnvelope (h : ch.Decodes kind setup) (hwave : kind ≠ .wave) (value : UInt8)
    (rate : Float32) :
    (ch.writeEnvelope value rate).Decodes kind { setup with volume := value } := by
  -- The jump of a playing channel comes on top of this, and it moves only the volume.
  have hstored : { ch with
      envelopeRegister := value, initialVolume := value >>> 4,
      powered := value &&& 0xF8 != 0 }.Decodes kind { setup with volume := value } := by
    cases kind with
    | wave => contradiction
    | sweptSquare | square | noise =>
      exact { h with
        powered := rfl, initialVolume := rfl, waveVolume := nofun,
        envelopeRegister := fun _ => rfl }
  simp only [Channel.writeEnvelope]
  split
  · exact hstored.off
  · split
    · exact { hstored with waveVolume := fun hw => absurd hw hwave }
    · exact hstored

theorem Decodes.writeVolume (h : ch.Decodes kind setup) (value : UInt8) (rate : Float32) :
    (ch.writeVolume value rate).Decodes kind { setup with volume := value } := by
  have hkind := h.kind_eq
  simp only [Channel.writeVolume]
  split
  · rename_i position hv
    rw [hv] at hkind
    subst hkind
    exact { h with
      initialVolume := rfl, waveVolume := fun _ => rfl, envelopeRegister := absurd rfl }
  · rename_i hv
    exact h.writeEnvelope (hkind ▸ Voice.kind_ne_wave hv) value rate

theorem Decodes.writeLow (h : ch.Decodes kind setup) (value : UInt8) :
    (ch.writeLow value).Decodes kind { setup with low := value } := by
  have hkind := h.kind_eq
  simp only [Channel.writeLow]
  split
  · rename_i lfsr short divisor hv
    rw [hv] at hkind
    subst hkind
    exact { h with kind_eq := rfl, voice := rfl, frequency := fun _ => rfl }
  · rename_i hv
    have hnoise : kind ≠ .noise := hkind ▸ Voice.kind_ne_noise hv
    cases kind with
    | noise => contradiction
    | sweptSquare | square | wave =>
      refine { h with frequency := fun hswept => ?_ }
      rw [h.frequency hswept]
      exact elevenBits_low _ _ _

theorem Decodes.trigger (h : ch.Decodes kind setup) (rate : Float32) :
    (ch.trigger rate).Decodes kind setup := by
  have hkind := h.kind_eq
  have hvoice := h.voice
  simp only [Channel.trigger]
  split
  · rename_i duty step sweep hv
    rw [hv] at hkind hvoice
    refine { h with kind_eq := ?_, voice := hvoice, waveVolume := fun _ => h.initialVolume }
    rw [← hkind]
    cases sweep <;> rfl
  · rename_i position hv
    rw [hv] at hkind hvoice
    exact { h with kind_eq := hkind, voice := hvoice, waveVolume := fun _ => h.initialVolume }
  · rename_i lfsr short divisor hv
    rw [hv] at hkind hvoice
    exact { h with kind_eq := hkind, voice := hvoice, waveVolume := fun _ => h.initialVolume }

theorem Decodes.writeHigh (h : ch.Decodes kind setup) (value : UInt8) :
    ∃ frequency, ch.writeHigh value = { ch with frequency } ∧
      (kind ≠ .sweptSquare → frequency = kind.frequency { setup with control := value }) := by
  have hkind := h.kind_eq
  simp only [Channel.writeHigh]
  split
  · rename_i lfsr short divisor hv
    rw [hv] at hkind
    subst hkind
    exact ⟨_, rfl, h.frequency⟩
  · rename_i hv
    have hnoise : kind ≠ .noise := hkind ▸ Voice.kind_ne_noise hv
    refine ⟨_, rfl, fun hswept => ?_⟩
    rw [h.frequency hswept]
    cases kind with
    | noise => contradiction
    | sweptSquare | square | wave => exact elevenBits_high _ _ _

theorem Decodes.writeControl (h : ch.Decodes kind setup) (value : UInt8) (rate : Float32) :
    (ch.writeControl value rate).Decodes kind { setup with control := value } := by
  obtain ⟨frequency, heq, hfrequency⟩ := h.writeHigh value
  -- Between the two updates the channel decodes neither the old setup nor the new one.
  have hstored : { ch with
      frequency, length := { ch.length with enabled := value &&& 0x40 != 0 } }.Decodes kind
        { setup with control := value } :=
    { h with frequency := hfrequency, counting := rfl }
  simp only [Channel.writeControl, heq]
  split
  · exact hstored.trigger rate
  · exact hstored

theorem Decodes.write (h : ch.Decodes kind setup) (register : Fin 5) (value : UInt8)
    (rate : Float32) :
    (ch.write register value rate).Decodes kind (setup.write register value) := by
  match register with
  | 0 => exact h.writeFirst value
  | 1 => exact h.writeLength value
  | 2 => exact h.writeVolume value rate
  | 3 => exact h.writeLow value
  | 4 => exact h.writeControl value rate

/-! ### Playing -/

theorem Decodes.countLength (h : ch.Decodes kind setup) : ch.countLength.Decodes kind setup := by
  have hkept : ch.length.count.load = ch.length.load ∧
      ch.length.count.enabled = ch.length.enabled := by
    simp only [LengthCounter.count]
    split <;> exact ⟨rfl, rfl⟩
  exact { h with load := hkept.1.trans h.load, counting := hkept.2.trans h.counting }

theorem Decodes.clockSweep (h : ch.Decodes kind setup) (rate : Float32) :
    (ch.clockSweep rate).Decodes kind setup := by
  have hkind := h.kind_eq
  have hvoice := h.voice
  simp only [Channel.clockSweep]
  split
  · rename_i duty step sweep hv
    rw [hv] at hkind hvoice
    subst hkind
    split
    · exact { h with kind_eq := rfl, voice := hvoice }
    · exact { h with kind_eq := rfl, voice := hvoice, frequency := absurd rfl }
    · exact { h with kind_eq := rfl, voice := hvoice }
  · exact h

theorem Decodes.advance (h : ch.Decodes kind setup) (table : WaveTable) :
    (ch.advance table).Decodes kind setup := by
  refine { h with kind_eq := (Voice.average_kind _ _ _ _ _).trans h.kind_eq, voice := ?_ }
  apply Voice.average_induction (P := fun voice => voice.rewound = kind.voice setup)
  · exact fun _ _ _ h => h
  · exact fun _ h => h
  · exact fun _ _ _ h => h
  · exact h.voice

theorem Decodes.play (h : ch.Decodes kind setup) (table : WaveTable) (rate decay : Float32) :
    (ch.play table rate decay).2.Decodes kind setup := by
  apply play_induction (P := Decodes kind setup) table rate decay
  · exact fun ch h => h.countLength
  · intro ch _ hv h
    have hwave : kind ≠ .wave := h.kind_eq ▸ Voice.kind_ne_wave hv
    exact { h with waveVolume := fun hw => absurd hw hwave }
  · exact fun ch _ h => h.clockSweep rate
  · exact fun ch _ h => h.advance table
  · exact fun ch c h => { h with }
  · exact h

theorem Decodes.prepare (h : ch.Decodes kind setup) (rate : Float32) :
    (ch.prepare rate).Decodes kind setup := by
  have hpitch : (ch.refreshPitch rate).Decodes kind setup := { h with }
  simp only [Channel.prepare, stopSlowNoise]
  split
  · split
    · exact hpitch.off
    · exact hpitch
  · exact hpitch

theorem Decodes.render (h : ch.Decodes kind setup) (table : WaveTable) (rate decay : Float32)
    (frames : Nat) : (ch.render table rate decay frames).2.Decodes kind setup :=
  playMany_induction table rate decay (fun _ h => h.play table rate decay) frames #[]
    (h.prepare rate)

theorem decodes_initial (i : Fin 4) :
    (initial i).Decodes (.ofIndex i) ⟨0, 0, 0, 0, 0, false, false⟩ := by
  have hindex : i = 0 ∨ i = 1 ∨ i = 2 ∨ i = 3 := by omega
  obtain rfl | rfl | rfl | rfl := hindex
  all_goals
    exact {
      kind_eq := rfl, voice := rfl, powered := by decide, initialVolume := by decide
      waveVolume := fun _ => by decide, envelopeRegister := fun _ => by decide
      sweepRegister := fun _ => by decide, frequency := fun _ => by decide
      load := by decide, counting := by decide, left := rfl, right := rfl }

end Channel

/-! ### The file -/

/-- The registers from 0xFF10 to 0xFF25. -/
abbrev RegisterFile := Vector UInt8 22

theorem RegisterFile.get_set (file : RegisterFile) (slot other : Fin 22) (value : UInt8) :
    (file.set slot value).get other = if slot = other then value else file.get other := by
  simp only [Vector.get_eq_getElem, Vector.getElem_set, Fin.ext_iff]

/-- Which place of the file belongs to a register, if any does. -/
def Register.slot? : Register → Option (Fin 22)
  | .channel index number => some (slot index number)
  | .volume => some volumeSlot
  | .routing => some routingSlot
  | .power | .wave _ | .unused => none

theorem Register.slot_eq_iff {i j : Fin 4} {m n : Fin 5} :
    slot i m = slot j n ↔ i = j ∧ m = n := by
  simp only [slot, Fin.ext_iff]
  omega

theorem Register.slot_ne_volumeSlot (i : Fin 4) (n : Fin 5) : slot i n ≠ volumeSlot := by
  simp only [slot, volumeSlot, ne_eq, Fin.ext_iff]
  omega

theorem Register.slot_ne_routingSlot (i : Fin 4) (n : Fin 5) : slot i n ≠ routingSlot := by
  simp only [slot, routingSlot, ne_eq, Fin.ext_iff]
  omega

theorem Register.slot?_ofOffset (offset : Nat) :
    (ofOffset offset).slot? = if h : offset < 22 then some ⟨offset, h⟩ else none := by
  unfold ofOffset
  by_cases hchannel : offset < 20
  · have hoffset : 5 * (offset / 5) + offset % 5 = offset := Nat.div_add_mod offset 5
    rw [dif_pos hchannel, dif_pos (by omega)]
    simp only [slot?, slot, hoffset]
  rw [dif_neg hchannel]
  by_cases hvolume : offset = 20
  · subst hvolume
    rfl
  rw [if_neg hvolume]
  by_cases hrouting : offset = 21
  · subst hrouting
    rfl
  rw [if_neg hrouting, dif_neg (by omega)]
  split
  · rfl
  · split
    · rfl
    · split <;> rfl

theorem Register.slot?_ofAddress {address : UInt16} {slot : Fin 22} :
    (ofAddress address).slot? = some slot ↔ address.toNat = base + slot := by
  unfold ofAddress
  by_cases hbase : base ≤ address.toNat
  · rw [if_pos hbase, slot?_ofOffset]
    by_cases hoffset : address.toNat - base < 22
    · rw [dif_pos hoffset, Option.some_inj, Fin.ext_iff]
      dsimp only
      omega
    · rw [dif_neg hoffset]
      exact ⟨nofun, fun h => absurd h (by omega)⟩
  · rw [if_neg hbase]
    exact ⟨nofun, fun h => absurd h (by omega)⟩

/-- What a file says about the channel with an index: its five registers, and the two bits that the
last register has for it. -/
def Setup.ofFile (file : RegisterFile) (i : Fin 4) : Setup where
  first := file[5 * i.val]
  length := file[5 * i.val + 1]
  volume := file[5 * i.val + 2]
  low := file[5 * i.val + 3]
  control := file[5 * i.val + 4]
  left := file[21].toNat.testBit (4 + i.val)
  right := file[21].toNat.testBit i.val

theorem routes_eq_testBit (value : UInt8) {bit : Nat} (h : bit < 8) :
    SoundUnit.routes value bit = value.toNat.testBit bit := by
  have hbit : (UInt8.ofNat bit).toNat % 8 = bit := by
    rw [UInt8.toNat_ofNat']
    omega
  have htoNat : ((value >>> UInt8.ofNat bit) &&& 1).toNat = (value.toNat >>> bit) &&& 1 := by
    rw [UInt8.toNat_and, UInt8.toNat_shiftRight, hbit]
    rfl
  rw [SoundUnit.routes, Nat.testBit, Nat.and_comm, ← htoNat, Bool.eq_iff_iff, bne_iff_ne,
    bne_iff_ne, ne_eq, ← UInt8.toNat_inj]
  rfl

/-- The bits of the routing are those that the unit decodes. -/
theorem Setup.ofFile_eq (file : RegisterFile) (i : Fin 4) :
    ofFile file i =
      { first := file.get (Register.slot i ⟨0, by decide⟩)
        length := file.get (Register.slot i ⟨1, by decide⟩)
        volume := file.get (Register.slot i ⟨2, by decide⟩)
        low := file.get (Register.slot i ⟨3, by decide⟩)
        control := file.get (Register.slot i ⟨4, by decide⟩)
        left := SoundUnit.routes (file.get Register.routingSlot) (4 + i)
        right := SoundUnit.routes (file.get Register.routingSlot) i } := by
  rw [routes_eq_testBit _ (by omega), routes_eq_testBit _ (by omega)]
  rfl

/-- What writing a register of the unit does to the setup of the channel with an index. -/
def Setup.receive (i : Fin 4) (value : UInt8) (setup : Setup) : Register → Setup
  | .channel index number => if index = i then setup.write number value else setup
  | .routing =>
    { setup with
      left := SoundUnit.routes value (4 + i)
      right := SoundUnit.routes value i }
  | .volume | .power | .wave _ | .unused => setup

theorem Channel.Decodes.receive {kind : Voice.Kind} {setup : Setup} {ch : Channel}
    (h : ch.Decodes kind setup) (i : Fin 4) (value : UInt8) (rate : Float32)
    (register : Register) :
    (ch.receive i value rate register).Decodes kind (setup.receive i value register) := by
  cases register with
  | channel index number =>
    simp only [Channel.receive, Setup.receive]
    by_cases hi : index = i
    · rw [if_pos hi, if_pos hi]
      exact h.write number value rate
    · rw [if_neg hi, if_neg hi]
      exact h
  | routing => exact { h with left := rfl, right := rfl }
  | power =>
    simp only [Channel.receive, Setup.receive]
    split
    · exact h
    · exact h.off
  | volume | wave | unused => exact h

end Sound

namespace SoundUnit

/-- Everything that the unit has decoded is the decoding of its register file. -/
structure Decodes (unit : SoundUnit) : Prop where
  channel : ∀ i : Fin 4,
    (unit.channels.get i).Decodes (.ofIndex i) (.ofFile unit.registers i)
  volumeLeft : unit.volumeLeft = ((unit.registers[20] >>> 4) &&& 0x07).toFloat32 / 7.0
  volumeRight : unit.volumeRight = (unit.registers[20] &&& 0x07).toFloat32 / 7.0

theorem new_registers (sampleRate : UInt32) (slot : Fin 22) :
    (new sampleRate).registers.get slot = 0 := by
  simp [new]

/-- A write changes the place of its register, if the register has one. -/
theorem writeRegister_registers (unit : SoundUnit) (value : UInt8) (register : Register)
    (slot : Fin 22) :
    (unit.writeRegister value register).registers.get slot =
      if register.slot? = some slot then value else unit.registers.get slot := by
  cases register with
  | channel | volume | routing =>
    simp only [SoundUnit.writeRegister, RegisterFile.get_set, Register.slot?, Option.some_inj]
  | power | wave | unused => rfl

theorem decodes_new (sampleRate : UInt32) : (new sampleRate).Decodes := by
  have hvolume : (new sampleRate).registers[20] = 0 :=
    new_registers sampleRate Register.volumeSlot
  refine ⟨fun i => ?_, ?_, ?_⟩
  · have hsetup : Setup.ofFile (new sampleRate).registers i = ⟨0, 0, 0, 0, 0, false, false⟩ := by
      simp only [Setup.ofFile_eq, new_registers]
      revert i
      decide
    rw [hsetup, new_channels]
    exact Channel.decodes_initial i
  · rw [hvolume]
    rfl
  · rw [hvolume]
    rfl

theorem setup_writeRegister (unit : SoundUnit) (value : UInt8) (register : Register)
    (i : Fin 4) :
    Setup.ofFile (unit.writeRegister value register).registers i =
      (Setup.ofFile unit.registers i).receive i value register := by
  simp only [Setup.ofFile_eq, writeRegister_registers]
  cases register with
  | channel index number =>
    simp only [Register.slot?, Option.some_inj, Register.slot_eq_iff,
      Register.slot_ne_routingSlot, if_false, Setup.receive]
    by_cases hi : index = i
    · simp only [hi, true_and, if_true]
      match number with
      | 0 | 1 | 2 | 3 | 4 => rfl
    · simp only [hi, false_and, if_false]
  | volume =>
    have hslot : ∀ n, Register.volumeSlot ≠ Register.slot i n :=
      fun n => (Register.slot_ne_volumeSlot i n).symm
    have hrouting : Register.volumeSlot ≠ Register.routingSlot := by decide
    simp only [Register.slot?, Option.some_inj, hslot, hrouting, if_false, Setup.receive]
  | routing =>
    have hslot : ∀ n, Register.routingSlot ≠ Register.slot i n :=
      fun n => (Register.slot_ne_routingSlot i n).symm
    simp only [Register.slot?, Option.some_inj, hslot, if_false, if_true, Setup.receive]
  | power | wave | unused => rfl

theorem Decodes.writeRegister {unit : SoundUnit} (h : unit.Decodes) (value : UInt8)
    (register : Register) : (unit.writeRegister value register).Decodes := by
  have hchannel : ∀ i : Fin 4, ((unit.writeRegister value register).channels.get i).Decodes
      (.ofIndex i) (.ofFile (unit.writeRegister value register).registers i) := by
    intro i
    rw [writeRegister_channels, setup_writeRegister]
    exact (h.channel i).receive i value unit.rate register
  have hvolume : (unit.writeRegister value register).registers[20] = _ :=
    unit.writeRegister_registers value register Register.volumeSlot
  cases register with
  | volume =>
    have hslot : Register.volume.slot? = some Register.volumeSlot := rfl
    rw [if_pos hslot] at hvolume
    refine ⟨hchannel, ?_, ?_⟩
    · rw [hvolume]
      rfl
    · rw [hvolume]
      rfl
  | channel index number =>
    have hslot : (Register.channel index number).slot? ≠ some Register.volumeSlot :=
      fun h => Register.slot_ne_volumeSlot index number (Option.some_inj.mp h)
    rw [if_neg hslot] at hvolume
    exact ⟨hchannel, hvolume ▸ h.volumeLeft, hvolume ▸ h.volumeRight⟩
  | routing =>
    rw [if_neg (by decide)] at hvolume
    exact ⟨hchannel, hvolume ▸ h.volumeLeft, hvolume ▸ h.volumeRight⟩
  | power | wave | unused => exact ⟨hchannel, h.volumeLeft, h.volumeRight⟩

theorem Decodes.after {unit : SoundUnit} (h : unit.Decodes) (action : Action) :
    (unit.after action).Decodes := by
  cases action with
  | write address value => exact h.writeRegister value _
  | render frames =>
    refine { h with channel := fun i => ?_ }
    rw [SoundUnit.after, render_snd, play_channels]
    exact (h.channel i).render _ _ _ _
  | reset => exact { decodes_new unit.sampleRate with }
  | setMuted | toggleMute | setMasterVolume => exact { h with }

theorem decodes_afterAll (sampleRate : UInt32) (actions : List Action) :
    ((new sampleRate).afterAll actions).Decodes :=
  afterAll_induction (fun _ action h => h.after action) (decodes_new sampleRate) actions

theorem Reached.decodes {sampleRate : UInt32} {unit : SoundUnit} (h : Reached sampleRate unit) :
    unit.Decodes := by
  obtain ⟨actions, rfl⟩ := h
  exact decodes_afterAll sampleRate actions

/-! ### Reading back -/

/-- What an action leaves at an address that held a value. -/
def Action.leaves (address : UInt16) (value : UInt8) : Action → UInt8
  | .write other written => if other = address then written else value
  | .reset => 0
  | .render _ | .setMuted .. | .toggleMute _ | .setMasterVolume _ => value

/-- The value that a run last writes to an address; power-on writes zero. -/
def lastWritten (address : UInt16) (actions : List Action) : UInt8 :=
  actions.foldl (Action.leaves address) 0

theorem get_after {address : UInt16} {slot : Fin 22}
    (haddress : address.toNat = Register.base + slot) (unit : SoundUnit) (action : Action) :
    (unit.after action).registers.get slot =
      action.leaves address (unit.registers.get slot) := by
  cases action with
  | write other written =>
    have hslot : (Register.ofAddress other).slot? = some slot ↔ other = address := by
      rw [Register.slot?_ofAddress, ← haddress, UInt16.toNat_inj]
    simp only [SoundUnit.after, SoundUnit.write, writeRegister_registers, hslot, Action.leaves]
  | reset => exact new_registers unit.sampleRate slot
  | render | setMuted | toggleMute | setMasterVolume => rfl

theorem get_afterAll {address : UInt16} {slot : Fin 22}
    (haddress : address.toNat = Register.base + slot) (unit : SoundUnit) (actions : List Action) :
    (unit.afterAll actions).registers.get slot =
      actions.foldl (Action.leaves address) (unit.registers.get slot) := by
  induction actions generalizing unit with
  | nil => rfl
  | cons action rest ih =>
    rw [afterAll_cons, ih, get_after haddress, List.foldl_cons]

theorem stored_of_slot? (unit : SoundUnit) {register : Register} {slot : Fin 22}
    (h : register.slot? = some slot) : unit.stored register = unit.registers.get slot := by
  cases register with
  | channel | volume | routing =>
    cases h
    rfl
  | power | wave | unused => contradiction

theorem read_afterAll (sampleRate : UInt32) (actions : List Action) {address : UInt16}
    (hfirst : 0xFF10 ≤ address) (hlast : address ≤ 0xFF25) :
    ((new sampleRate).afterAll actions).read address =
      lastWritten address actions ||| (Register.ofAddress address).mask := by
  have hfirst : 0xFF10 ≤ address.toNat := UInt16.le_iff_toNat_le.mp hfirst
  have hlast : address.toNat ≤ 0xFF25 := UInt16.le_iff_toNat_le.mp hlast
  obtain ⟨slot, haddress⟩ : ∃ slot : Fin 22, address.toNat = Register.base + slot :=
    ⟨⟨address.toNat - 0xFF10, by omega⟩, (Nat.add_sub_cancel' hfirst).symm⟩
  have hslot := Register.slot?_ofAddress.mpr haddress
  simp only [SoundUnit.read, stored_of_slot? _ hslot, get_afterAll haddress, new_registers,
    lastWritten]

/-! ### Whole runs -/

/-- Two units have the same decoded fields. -/
structure Agrees (unit other : SoundUnit) : Prop where
  channel : ∀ i : Fin 4,
    (unit.channels.get i).Agrees (.ofIndex i) (other.channels.get i)
  volumeLeft : unit.volumeLeft = other.volumeLeft
  volumeRight : unit.volumeRight = other.volumeRight

theorem Decodes.agrees {unit other : SoundUnit} (h : unit.Decodes) (hother : other.Decodes)
    (hregisters : unit.registers = other.registers) : unit.Agrees other where
  channel i := (h.channel i).agrees (hregisters ▸ hother.channel i)
  volumeLeft := h.volumeLeft.trans (hregisters ▸ hother.volumeLeft.symm)
  volumeRight := h.volumeRight.trans (hregisters ▸ hother.volumeRight.symm)

/-- The decoded fields never drift from the register file. After any run they are its decoding, so
two runs that leave the same file leave the same fields, and every register reads back as it was
last written, with the bits set that always read as one. -/
theorem decoded_from_file (sampleRate : UInt32) (actions : List Action) :
    ((new sampleRate).afterAll actions).Decodes ∧
      (∀ (otherRate : UInt32) (others : List Action),
        ((new sampleRate).afterAll actions).registers =
            ((new otherRate).afterAll others).registers →
          ((new sampleRate).afterAll actions).Agrees ((new otherRate).afterAll others)) ∧
      ∀ address : UInt16, 0xFF10 ≤ address → address ≤ 0xFF25 →
        ((new sampleRate).afterAll actions).read address =
          lastWritten address actions ||| (Register.ofAddress address).mask :=
  ⟨decodes_afterAll sampleRate actions,
    fun otherRate others =>
      (decodes_afterAll sampleRate actions).agrees (decodes_afterAll otherRate others),
    fun _ hfirst hlast => read_afterAll sampleRate actions hfirst hlast⟩

/-- A tone whose envelope is rewritten while it plays. -/
def rewritten : List Action :=
  [.write 0xFF12 0xF3, .write 0xFF14 0x87, .render 100, .write 0xFF12 0x19]

/-- The same file, with nothing played. -/
def unplayed : List Action :=
  [.write 0xFF14 0x87, .toggleMute square1, .write 0xFF12 0x19]

/-- Both runs leave the same file. The bits of the last register that cannot be read are ones. -/
theorem decoded_from_file_rewritten :
    ((new 48000).afterAll rewritten).Agrees ((new 44100).afterAll unplayed) ∧
      ((new 48000).afterAll rewritten).read 0xFF12 = 0x19 ∧
      ((new 48000).afterAll rewritten).read 0xFF14 = 0xBF := by
  obtain ⟨-, hagrees, hread⟩ := decoded_from_file 48000 rewritten
  have hregisters : ((new 48000).afterAll rewritten).registers =
      ((new 44100).afterAll unplayed).registers := by decide +kernel
  have hvolume : lastWritten 0xFF12 rewritten = 0x19 := by decide
  have hcontrol : lastWritten 0xFF14 rewritten = 0x87 := by decide
  refine ⟨hagrees 44100 unplayed hregisters, ?_, ?_⟩
  · rw [hread 0xFF12 (by decide) (by decide), hvolume]
    rfl
  · rw [hread 0xFF14 (by decide) (by decide), hcontrol]
    rfl

end SoundUnit
end Chiptune
