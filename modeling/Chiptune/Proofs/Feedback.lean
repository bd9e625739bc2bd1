import Chiptune.Proofs.Alignment
import Chiptune.Proofs.Restart
import Chiptune.Proofs.SoundRun

/-!
# What a driver can tell of the sound

The registers of the sound unit can be read, so a driver might play differently
when its sound is rendered differently. All that it can tell is one byte: the
power register, which shows the channels that are on. Every other register holds
what was last written to it.

`Memory.Matches` relates memories that no driver can tell apart but by that byte.
Neither a write nor an instruction breaks it, as long as the byte is the same
before each instruction. While nothing is rendered it always is: which channels
are on then follows from what was written, and that is `Memory.Powers`.
-/
namespace Chiptune

open Album (Header)
open Sound

open Sound.Register (powerAddress)

/-! ### Memories that a driver cannot tell apart -/

namespace Memory

/-- The memories hold the same in all that a driver can write, apart from the channels. -/
structure Matches (a b : Memory) : Prop where
  rom_eq : a.rom = b.rom
  cells_eq : a.cells = b.cells
  bank_eq : a.bank = b.bank
  registers_eq : a.sound.registers = b.sound.registers
  wave_eq : a.sound.wave = b.sound.wave
  modulo_eq : a.rate.modulo = b.rate.modulo
  control_eq : a.rate.control = b.rate.control

namespace Matches

variable {a b c : Memory}

theorem refl (a : Memory) : a.Matches a := ⟨rfl, rfl, rfl, rfl, rfl, rfl, rfl⟩

theorem symm (h : a.Matches b) : b.Matches a :=
  ⟨h.rom_eq.symm, h.cells_eq.symm, h.bank_eq.symm, h.registers_eq.symm, h.wave_eq.symm,
    h.modulo_eq.symm, h.control_eq.symm⟩

theorem trans (hab : a.Matches b) (hbc : b.Matches c) : a.Matches c :=
  ⟨hab.rom_eq.trans hbc.rom_eq, hab.cells_eq.trans hbc.cells_eq, hab.bank_eq.trans hbc.bank_eq,
    hab.registers_eq.trans hbc.registers_eq, hab.wave_eq.trans hbc.wave_eq,
    hab.modulo_eq.trans hbc.modulo_eq, hab.control_eq.trans hbc.control_eq⟩

/-- Only the power register may read differently. -/
theorem read_eq (h : a.Matches b) {address : UInt16} (hne : address ≠ powerAddress) :
    a.read address = b.read address := by
  have htimer : a.rate.read address = b.rate.read address := by
    simp only [TickRate.read, h.modulo_eq, h.control_eq]
  have hsound : a.sound.read address = b.sound.read address := by
    simp only [SoundUnit.read]
    congr 1
    cases hregister : Register.ofAddress address with
    | channel | volume | routing => simp only [SoundUnit.stored, h.registers_eq]
    | power => exact absurd (Register.eq_powerAddress hregister) hne
    | wave => simp only [SoundUnit.stored, h.wave_eq]
    | unused => rfl
  simp only [read, htimer, hsound, h.cells_eq]

theorem read_eq_of_power (h : a.Matches b) (hpower : a.read powerAddress = b.read powerAddress) :
    a.read = b.read := by
  funext address
  by_cases hne : address = powerAddress
  · rw [hne, hpower]
  · exact h.read_eq hne

theorem sound_write (h : a.Matches b) (address : UInt16) (value : UInt8) :
    (a.sound.write address value).registers = (b.sound.write address value).registers ∧
      (a.sound.write address value).wave = (b.sound.write address value).wave := by
  simp only [SoundUnit.write]
  cases Register.ofAddress address with
  | channel | volume | routing =>
    simp only [SoundUnit.writeRegister, h.registers_eq, h.wave_eq, and_self]
  | power => exact ⟨h.registers_eq, h.wave_eq⟩
  | wave => simp only [SoundUnit.writeRegister, h.registers_eq, h.wave_eq, and_self]
  | unused => exact ⟨h.registers_eq, h.wave_eq⟩

theorem selectBank (h : a.Matches b) (number : Nat) :
    (a.selectBank number).Matches (b.selectBank number) := by
  have hbank : a.selectable? number = b.selectable? number := by
    simp only [selectable?, h.rom_eq]
  unfold Memory.selectBank
  rw [hbank]
  cases b.selectable? number with
  | some bank => exact { h with cells_eq := by rw [h.cells_eq], bank_eq := rfl }
  | none => exact h

theorem rate_write (h : a.Matches b) (address : UInt16) (value : UInt8) :
    (a.rate.write address value).modulo = (b.rate.write address value).modulo ∧
      (a.rate.write address value).control = (b.rate.write address value).control := by
  have hchanged : a.rate.changedBy address value = b.rate.changedBy address value := by
    simp only [TickRate.changedBy, h.modulo_eq, h.control_eq]
  simp only [TickRate.write, hchanged]
  split
  · split
    · exact ⟨rfl, h.control_eq⟩
    · exact ⟨h.modulo_eq, rfl⟩
  · exact ⟨h.modulo_eq, h.control_eq⟩

theorem write (h : a.Matches b) (address : UInt16) (value : UInt8) :
    (a.write address value).Matches (b.write address value) := by
  unfold Memory.write
  cases Region.ofAddress address with
  | rom => exact h
  | bankSelect => exact h.selectBank value.toNat
  | timer =>
    obtain ⟨hmodulo, hcontrol⟩ := h.rate_write address value
    exact { h with modulo_eq := hmodulo, control_eq := hcontrol }
  | sound =>
    obtain ⟨hregisters, hwave⟩ := h.sound_write address value
    exact { h with registers_eq := hregisters, wave_eq := hwave }
  | plain => exact { h with cells_eq := by rw [h.cells_eq] }

end Matches

/-- Until the sound registers are written, a track begins with what its image and header give. -/
theorem matches_timedMemory (header : Header) {a b : Memory} (hrom : a.rom = b.rom) :
    (Deck.timedMemory header a).Matches (Deck.timedMemory header b) := by
  simp only [Deck.timedMemory, Deck.clearedMemory_eq, Deck.write_interrupts]
  exact ⟨hrom, by rw [hrom], rfl, rfl, rfl, rfl, rfl⟩

end Memory

/-! ### Which channels are on -/

namespace Sound

/-- Whether a channel is on, whether a trigger would start it, and of which kind it is. -/
structure Switches where
  enabled : Bool
  powered : Bool
  kind : Voice.Kind

/-- What a write does to the switches of a channel. The power of the wave lies in its first
register, that of the others in the third. -/
def Switches.write (s : Switches) (register : Fin 5) (value : UInt8) : Switches :=
  match register, s.kind with
  | 0, .wave =>
    { s with powered := value &&& 0x80 != 0, enabled := value &&& 0x80 != 0 && s.enabled }
  | 2, .wave => s
  | 2, _ => { s with powered := value &&& 0xF8 != 0, enabled := value &&& 0xF8 != 0 && s.enabled }
  | 4, _ => if value &&& 0x80 != 0 then { s with enabled := s.powered } else s
  | _, _ => s

namespace Channel

def switches (ch : Channel) : Switches := ⟨ch.enabled, ch.powered, ch.voice.kind⟩

theorem switches_trigger (ch : Channel) (rate : Float32) :
    (ch.trigger rate).switches = { ch.switches with enabled := ch.powered } := by
  have hkind := ch.trigger_kind rate
  have hfields : (ch.trigger rate).enabled = ch.powered ∧
      (ch.trigger rate).powered = ch.powered := by
    unfold trigger
    dsimp only
    split <;> exact ⟨rfl, rfl⟩
  simp only [switches, hkind, hfields]

theorem switches_writeEnvelope (ch : Channel) (value : UInt8) (rate : Float32) :
    (ch.writeEnvelope value rate).switches =
      { ch.switches with
        powered := value &&& 0xF8 != 0
        enabled := value &&& 0xF8 != 0 && ch.enabled } := by
  unfold writeEnvelope
  cases hpowered : value &&& 0xF8 != 0 with
  | false => simp [switches]
  | true => cases hon : ch.enabled <;> simp [switches, hon]

theorem switches_writeHigh (ch : Channel) (value : UInt8) :
    (ch.writeHigh value).switches = ch.switches := by
  unfold writeHigh
  split <;> rfl

theorem switches_writeControl (ch : Channel) (value : UInt8) (rate : Float32) :
    (ch.writeControl value rate).switches =
      if value &&& 0x80 != 0 then { ch.switches with enabled := ch.powered } else ch.switches := by
  have hhigh := ch.switches_writeHigh value
  simp only [switches, Switches.mk.injEq] at hhigh
  unfold writeControl
  dsimp only
  split
  · rw [switches_trigger]
    simp only [switches, hhigh]
  · simp only [switches, hhigh]

/-- A write switches a channel in the same way whatever it plays. -/
theorem switches_write (ch : Channel) (register : Fin 5) (value : UInt8) (rate : Float32) :
    (ch.write register value rate).switches = ch.switches.write register value := by
  match register with
  | 0 =>
    simp only [write, writeFirst, Switches.write]
    cases hv : ch.voice with
    | square duty step sweep => cases sweep <;> simp [switches, hv, Voice.kind]
    | wave position => simp [switches, hv, Voice.kind]
    | noise lfsr short divisor => simp [switches, hv, Voice.kind]
  | 1 =>
    simp only [write, writeLength, Switches.write]
    cases hv : ch.voice with
    | square duty step sweep => cases sweep <;> simp [switches, hv, Voice.kind]
    | wave position => simp [switches, hv, Voice.kind]
    | noise lfsr short divisor => simp [switches, hv, Voice.kind]
  | 2 =>
    simp only [write, writeVolume, Switches.write]
    cases hv : ch.voice with
    | square duty step sweep =>
      rw [switches_writeEnvelope]
      cases sweep <;> simp [switches, hv, Voice.kind]
    | wave position => simp [switches, hv, Voice.kind]
    | noise lfsr short divisor =>
      rw [switches_writeEnvelope]
      simp [switches, hv, Voice.kind]
  | 3 =>
    simp only [write, writeLow, Switches.write]
    cases hv : ch.voice with
    | square duty step sweep => cases sweep <;> simp [switches, hv, Voice.kind]
    | wave position => simp [switches, hv, Voice.kind]
    | noise lfsr short divisor => simp [switches, hv, Voice.kind]
  | 4 => exact ch.switches_writeControl value rate

theorem switches_receive (ch : Channel) (index : Fin 4) (value : UInt8) (rate : Float32)
    (register : Register) {other : Channel} (h : ch.switches = other.switches) (rate' : Float32) :
    (ch.receive index value rate register).switches =
      (other.receive index value rate' register).switches := by
  cases register with
  | channel i number =>
    simp only [receive]
    split
    · rw [switches_write, switches_write, h]
    · exact h
  | routing => exact h
  | power =>
    simp only [receive]
    split
    · exact h
    · simp only [switches, Switches.mk.injEq] at h ⊢
      exact ⟨trivial, h.2⟩
  | volume | wave | unused => exact h

end Channel
end Sound

namespace Memory

/-- A write reaches the sound unit in its own region only. -/
theorem write_sound (memory : Memory) (address : UInt16) (value : UInt8) :
    (memory.write address value).sound =
      if Region.ofAddress address = .sound then memory.sound.write address value
      else memory.sound := by
  unfold write
  cases Region.ofAddress address with
  | rom | timer | sound | plain => rfl
  | bankSelect =>
    unfold selectBank
    cases memory.selectable? value.toNat <;> rfl

/-- The memories match and the same channels are on, so that the power register reads alike. -/
structure Powers (a b : Memory) : Prop extends a.Matches b where
  powered_eq : a.sound.powered = b.sound.powered
  switches_eq : ∀ i : Fin 4,
    (a.sound.channels.get i).switches = (b.sound.channels.get i).switches

namespace Powers

variable {a b c : Memory}

theorem refl (a : Memory) : a.Powers a := ⟨.refl a, rfl, fun _ => rfl⟩

theorem symm (h : a.Powers b) : b.Powers a :=
  ⟨h.toMatches.symm, h.powered_eq.symm, fun i => (h.switches_eq i).symm⟩

theorem trans (hab : a.Powers b) (hbc : b.Powers c) : a.Powers c :=
  ⟨hab.toMatches.trans hbc.toMatches, hab.powered_eq.trans hbc.powered_eq,
    fun i => (hab.switches_eq i).trans (hbc.switches_eq i)⟩

theorem read_power (h : a.Powers b) : a.read powerAddress = b.read powerAddress := by
  have hon : ∀ i : Fin 4, (a.sound.channels.get i).enabled = (b.sound.channels.get i).enabled :=
    fun i => congrArg Switches.enabled (h.switches_eq i)
  have hbits : a.sound.enabledBits = b.sound.enabledBits := by
    simp only [SoundUnit.enabledBits, Fin.getElem_fin, ← Vector.get_eq_getElem, hon]
  show a.sound.read powerAddress = b.sound.read powerAddress
  have hregister : Register.ofAddress powerAddress = .power := by decide
  simp only [SoundUnit.read, hregister, SoundUnit.stored, h.powered_eq, hbits]

theorem sound_write (h : a.Powers b) (address : UInt16) (value : UInt8) :
    (a.sound.write address value).powered = (b.sound.write address value).powered ∧
      ∀ i : Fin 4, ((a.sound.write address value).channels.get i).switches =
        ((b.sound.write address value).channels.get i).switches := by
  unfold SoundUnit.write
  refine ⟨?_, fun i => ?_⟩
  · cases Register.ofAddress address with
    | channel | volume | routing | wave | unused => exact h.powered_eq
    | power => rfl
  · rw [SoundUnit.writeRegister_channels, SoundUnit.writeRegister_channels]
    exact Channel.switches_receive _ i value _ _ (h.switches_eq i) _

theorem write (h : a.Powers b) (address : UInt16) (value : UInt8) :
    (a.write address value).Powers (b.write address value) := by
  refine ⟨h.toMatches.write address value, ?_, ?_⟩
  all_goals rw [write_sound, write_sound]
  · split
    · exact (h.sound_write address value).1
    · exact h.powered_eq
  · split
    · exact (h.sound_write address value).2
    · exact h.switches_eq

end Powers

/-- A relation between memories that no music driver leaves, and that a track begins in. -/
structure Congruence (R : Memory → Memory → Prop) : Prop where
  equivalence : Equivalence R
  toMatches : ∀ {a b}, R a b → a.Matches b
  write : ∀ {a b}, R a b → ∀ address value, R (a.write address value) (b.write address value)
  timed : ∀ {a b : Memory}, a.rom = b.rom → ∀ header,
    R (Deck.timedMemory header a) (Deck.timedMemory header b)

theorem congruence_matches : Congruence Matches where
  equivalence := ⟨.refl, .symm, .trans⟩
  toMatches h := h
  write h := h.write
  timed hrom header := matches_timedMemory header hrom

theorem congruence_powers : Congruence Powers where
  equivalence := ⟨.refl, .symm, .trans⟩
  toMatches h := h.toMatches
  write h := h.write
  timed hrom header := by
    refine ⟨matches_timedMemory header hrom, ?_, ?_⟩
    all_goals simp only [Deck.timedMemory, Deck.clearedMemory_eq, Deck.write_interrupts]
    · rfl
    · exact fun i => rfl

namespace Congruence

variable {R : Memory → Memory → Prop} {a b : Memory}

theorem apply (hR : Congruence R) (h : R a b) (store : Store) :
    R (a.apply store) (b.apply store) := by
  cases store with
  | none => exact h
  | byte address value => exact hR.write h address value
  | word address value => exact hR.write (hR.write h _ _) _ _

theorem writeAll (hR : Congruence R) (h : R a b) (address : UInt16) (values : List UInt8) :
    R (a.writeAll address values) (b.writeAll address values) := by
  induction values generalizing a b address with
  | nil => exact h
  | cons value rest ih => exact ih (hR.write h address value) (address + 1)

theorem initMemory (hR : Congruence R) (hrom : a.rom = b.rom) (header : Header) :
    R (Deck.initMemory header a) (Deck.initMemory header b) :=
  hR.writeAll (hR.writeAll (hR.timed hrom header) _ _) _ _

/-- An instruction cannot tell the memories apart when the power register reads alike. -/
theorem step (hR : Congruence R) (h : R a b) (hpower : a.read powerAddress = b.read powerAddress)
    (cpu : Cpu) :
    (cpu.step a).cpu = (cpu.step b).cpu ∧ (cpu.step a).returned = (cpu.step b).returned ∧
      R (cpu.step a).memory (cpu.step b).memory := by
  have heffect : cpu.effectIn a = cpu.effectIn b := by
    simp only [Cpu.effectIn, (hR.toMatches h).read_eq_of_power hpower]
  simp only [Cpu.step, heffect, true_and]
  exact hR.apply h _

end Congruence
end Memory

/-! ### Decks that a driver cannot tell apart -/

namespace Deck

/-- What a routine reads in the power register, once before each instruction. -/
def routinePowerReads (rest : UInt16) : (budget : Nat) → Cpu → Memory → List UInt8
  | 0, _, _ => []
  | budget + 1, cpu, memory =>
    if cpu.registers.sp = rest then []
    else
      let stepped := cpu.step memory
      memory.read powerAddress :: routinePowerReads rest budget stepped.cpu stepped.memory

/-- What can be read in the power register before each instruction of an action. -/
def powerReads (deck : Deck) : Action → List UInt8
  | .step => [deck.memory.read powerAddress]
  | .frame =>
    routinePowerReads deck.restingSP deck.config.stepBudget deck.cpu deck.memory
  | _ => []

/-- Readings that are the same as far as both go. -/
def SameReads (xs ys : List UInt8) : Prop := ∀ p ∈ xs.zip ys, p.1 = p.2

variable {R : Memory → Memory → Prop}

theorem runRoutine_congr (hR : Memory.Congruence R) (rest : UInt16) (budget steps : Nat) (cpu : Cpu)
    {a b : Memory} (h : R a b)
    (hreads : SameReads (routinePowerReads rest budget cpu a)
      (routinePowerReads rest budget cpu b)) :
    (runRoutine rest budget steps cpu a).cpu = (runRoutine rest budget steps cpu b).cpu ∧
      (runRoutine rest budget steps cpu a).outcome =
        (runRoutine rest budget steps cpu b).outcome ∧
      R (runRoutine rest budget steps cpu a).memory
        (runRoutine rest budget steps cpu b).memory := by
  induction budget generalizing steps cpu a b with
  | zero => exact ⟨rfl, rfl, h⟩
  | succ budget ih =>
    by_cases hrest : cpu.registers.sp = rest
    · simp only [runRoutine, if_pos hrest, true_and]
      exact h
    · simp only [routinePowerReads, if_neg hrest] at hreads
      simp only [runRoutine, if_neg hrest]
      obtain ⟨hcpu, -, hmemory⟩ := hR.step h (hreads _ List.mem_cons_self) cpu
      rw [← hcpu] at hreads ⊢
      exact ih (steps + 1) _ hmemory fun p hp => hreads p (List.mem_cons_of_mem _ hp)

/-- While the same channels are on, a routine reads the same in the power register. -/
theorem routinePowerReads_eq (rest : UInt16) (budget : Nat) (cpu : Cpu) {a b : Memory}
    (h : a.Powers b) :
    routinePowerReads rest budget cpu a = routinePowerReads rest budget cpu b := by
  induction budget generalizing cpu a b with
  | zero => rfl
  | succ budget ih =>
    by_cases hrest : cpu.registers.sp = rest
    · simp only [routinePowerReads, if_pos hrest]
    · simp only [routinePowerReads, if_neg hrest]
      obtain ⟨hcpu, -, hmemory⟩ := Memory.congruence_powers.step h h.read_power cpu
      rw [h.read_power, ← hcpu, ih _ hmemory]

/-- The decks play the same track of the same album, and their memories are related. -/
structure Related (R : Memory → Memory → Prop) (a b : Deck) : Prop where
  album_eq : a.album = b.album
  budget_eq : a.config.stepBudget = b.config.stepBudget
  track_eq : a.track = b.track
  cpu_eq : a.cpu = b.cpu
  memory : R a.memory b.memory

/-- Whether an action is of the processor's side: it runs the driver, pokes or begins a track. -/
def Action.isDriven : Action → Bool
  | .step | .frame | .poke .. | .select _ | .next | .previous | .restart => true
  | _ => false

namespace Related

variable {a b c : Deck}

theorem symm (hR : Memory.Congruence R) (h : Related R a b) : Related R b a :=
  ⟨h.album_eq.symm, h.budget_eq.symm, h.track_eq.symm, h.cpu_eq.symm,
    hR.equivalence.symm h.memory⟩

theorem trans (hR : Memory.Congruence R) (hab : Related R a b) (hbc : Related R b c) :
    Related R a c :=
  ⟨hab.album_eq.trans hbc.album_eq, hab.budget_eq.trans hbc.budget_eq,
    hab.track_eq.trans hbc.track_eq, hab.cpu_eq.trans hbc.cpu_eq,
    hR.equivalence.trans hab.memory hbc.memory⟩

theorem trackCount_eq (h : Related R a b) : a.trackCount = b.trackCount := by
  rw [trackCount, trackCount, h.album_eq]

theorem restart (hR : Memory.Congruence R) (h : Related R a b) {track track' : Nat}
    (htrack : track = track') :
    Related R (restart { a with track }) (restart { b with track := track' }) where
  album_eq := h.album_eq
  budget_eq := h.budget_eq
  track_eq := htrack
  cpu_eq := by
    show initCpu a.album.header track = initCpu b.album.header track'
    rw [h.album_eq, htrack]
  memory := by
    show R (initMemory a.album.header a.memory) (initMemory b.album.header b.memory)
    rw [h.album_eq]
    exact hR.initMemory (hR.toMatches h.memory).rom_eq _

theorem step (hR : Memory.Congruence R) (h : Related R a b)
    (hpower : a.memory.read powerAddress = b.memory.read powerAddress) :
    a.step.1 = b.step.1 ∧ Related R a.step.2 b.step.2 := by
  obtain ⟨hcpu, hreturned, hmemory⟩ := hR.step h.memory hpower a.cpu
  rw [h.cpu_eq] at hcpu hreturned hmemory
  simp only [Deck.step, h.cpu_eq]
  exact ⟨hreturned, h.album_eq, h.budget_eq, h.track_eq, hcpu, hmemory⟩

theorem runFrame (hR : Memory.Congruence R) (h : Related R a b)
    (hreads : SameReads (a.powerReads .frame) (b.powerReads .frame)) :
    a.runFrame.1 = b.runFrame.1 ∧ Related R a.runFrame.2 b.runFrame.2 := by
  obtain ⟨album, config, cpu, memory, track, paused⟩ := a
  obtain ⟨album', config', cpu', memory', track', paused'⟩ := b
  obtain ⟨rfl, hbudget, rfl, rfl, hmemory⟩ := h
  simp only at hbudget hmemory
  simp only [powerReads, restingSP, hbudget] at hreads
  obtain ⟨hcpu, houtcome, hnext⟩ :=
    runRoutine_congr hR album.header.stackPointer config'.stepBudget 0 cpu hmemory hreads
  simp only [Deck.runFrame, hbudget, houtcome, hcpu, true_and]
  exact ⟨rfl, hbudget, rfl, rfl, hnext⟩

theorem select (hR : Memory.Congruence R) (h : Related R a b) (track : Nat) :
    (a.perform (.select track)).1 = (b.perform (.select track)).1 ∧
      Related R (a.after (.select track)) (b.after (.select track)) := by
  by_cases hlt : track < b.trackCount
  · have hlt' : track < a.trackCount := by rwa [h.trackCount_eq]
    simp only [after, perform, selectTrack_of_lt hlt, selectTrack_of_lt hlt']
    exact ⟨rfl, h.restart hR rfl⟩
  · have hle : b.trackCount ≤ track := Nat.not_lt.mp hlt
    have hle' : a.trackCount ≤ track := by rwa [h.trackCount_eq]
    simp only [after, perform, selectTrack_of_le hle, selectTrack_of_le hle', h.trackCount_eq]
    exact ⟨trivial, h⟩

/-- An action of the processor's side has the same answer in both decks and keeps them related. -/
theorem perform (hR : Memory.Congruence R) (h : Related R a b) {action : Action}
    (hdriven : action.isDriven = true)
    (hreads : SameReads (a.powerReads action) (b.powerReads action)) :
    (a.perform action).1 = (b.perform action).1 ∧ Related R (a.after action) (b.after action) := by
  cases action with
  | step =>
    obtain ⟨hreturned, hnext⟩ := h.step hR (hreads _ List.mem_cons_self)
    exact ⟨congrArg Answer.returned hreturned, hnext⟩
  | frame =>
    obtain ⟨houtcome, hnext⟩ := h.runFrame hR hreads
    exact ⟨congrArg Answer.outcome houtcome, hnext⟩
  | poke address value =>
    exact ⟨rfl, h.album_eq, h.budget_eq, h.track_eq, h.cpu_eq, hR.write h.memory address value⟩
  | select track => exact h.select hR track
  | next =>
    have htrack : (a.track + 1) % a.trackCount = (b.track + 1) % b.trackCount := by
      rw [h.track_eq, h.trackCount_eq]
    exact ⟨congrArg Answer.track htrack, h.restart hR htrack⟩
  | previous =>
    have htrack : (a.track + a.trackCount - 1) % a.trackCount =
        (b.track + b.trackCount - 1) % b.trackCount := by
      rw [h.track_eq, h.trackCount_eq]
    exact ⟨congrArg Answer.track htrack, h.restart hR htrack⟩
  | restart => exact ⟨rfl, h.restart hR h.track_eq⟩
  | tick | render | togglePause | setMuted | toggleMute | setVolume | setSpeed | adjustSpeed =>
    contradiction

end Related

/-- The user's actions reach nothing that a driver can tell, but a period may stop a channel. -/
theorem matches_after {deck : Deck} {action : Action} (hown : action.isDriven = false)
    (htick : action ≠ .tick) : Related Memory.Matches (deck.after action) deck := by
  cases action with
  | step | frame | poke | select | next | previous | restart => contradiction
  | tick => contradiction
  | render | togglePause | setMuted | toggleMute | setVolume | setSpeed | adjustSpeed =>
    exact ⟨rfl, rfl, rfl, rfl, ⟨rfl, rfl, rfl, rfl, rfl, rfl, rfl⟩⟩

theorem powers_after {deck : Deck} {action : Action} (hown : action.isDriven = false)
    (htick : action ≠ .tick) (hrender : ∀ frames, action ≠ .render frames) :
    Related Memory.Powers (deck.after action) deck := by
  cases action with
  | step | frame | poke | select | next | previous | restart => contradiction
  | tick => contradiction
  | render frames => exact absurd rfl (hrender frames)
  | togglePause | setMuted | toggleMute | setVolume | setSpeed | adjustSpeed =>
    exact ⟨rfl, rfl, rfl, rfl, ⟨⟨rfl, rfl, rfl, rfl, rfl, rfl, rfl⟩, rfl, fun _ => rfl⟩⟩

theorem keptByOwn_of_after (hR : Memory.Congruence R) {actionsA actionsB : List Action}
    (hown : ∀ action ∈ actionsA ++ actionsB, action.isDriven = false →
      ∀ deck : Deck, Related R (deck.after action) deck) :
    KeptByOwn after Action.isDriven (Related R) actionsA actionsB where
  left action hmem hdriven s _ hst :=
    (hown action (List.mem_append_left _ hmem) hdriven s).trans hR hst
  right action hmem hdriven _ t hst :=
    hst.trans hR ((hown action (List.mem_append_right _ hmem) hdriven t).symm hR)

/-! ### Two runs of one driver -/

/-- A deck that has just begun a track, from whatever past. -/
def Begins (album : Album) (config : Config) (track : Nat) (deck : Deck) : Prop :=
  ∃ past, Reached album config past ∧ past.selectTrack track = .ok deck

theorem eq_restart_of_selectTrack {deck next : Deck} {track : Nat}
    (h : deck.selectTrack track = .ok next) : next = restart { deck with track } := by
  by_cases hlt : track < deck.trackCount
  · rw [selectTrack_of_lt hlt] at h
    exact (Except.ok.inj h).symm
  · rw [selectTrack_of_le (Nat.not_lt.mp hlt)] at h
    contradiction

theorem selectTrack_restart (deck : Deck) (h : deck.track < deck.trackCount) :
    (restart deck).selectTrack deck.track = .ok (restart deck) := by
  have hplays : deck.track < (restart deck).trackCount := h
  rw [selectTrack_of_lt hplays]
  exact congrArg Except.ok (restart_restart deck)

/-- A new deck begins the start track of its album. -/
theorem begins_of_new {album : Album} {config : Config} {start : Deck}
    (h : Deck.new album config = .ok start) : Begins album config (firstTrack album) start := by
  have hreached : Reached album config start := ⟨start, [], h, rfl⟩
  refine ⟨start, hreached, ?_⟩
  obtain ⟨hlt, rfl⟩ := new_eq_ok h
  exact selectTrack_restart (unstarted album config) hlt

theorem Begins.related (hR : Memory.Congruence R) {album : Album} {configA configB : Config}
    {track : Nat} {a b : Deck} (ha : Begins album configA track a)
    (hb : Begins album configB track b) (hbudget : configA.stepBudget = configB.stepBudget) :
    Related R a b := by
  obtain ⟨past, hpast, hselect⟩ := ha
  obtain ⟨other, hother, hselect'⟩ := hb
  obtain rfl := eq_restart_of_selectTrack hselect
  obtain rfl := eq_restart_of_selectTrack hselect'
  have halbum : past.album = other.album := hpast.plays.album_eq.trans hother.plays.album_eq.symm
  have hrom : past.memory.rom = other.memory.rom :=
    hpast.settled.rom_eq.trans hother.settled.rom_eq.symm
  constructor
  · exact halbum
  · show past.config.stepBudget = other.config.stepBudget
    rw [hpast.plays.config_eq, hother.plays.config_eq, hbudget]
  · rfl
  · show initCpu past.album.header track = initCpu other.album.header track
    rw [halbum]
  · show R (initMemory past.album.header past.memory) (initMemory other.album.header other.memory)
    rw [halbum]
    exact hR.initMemory hrom _

/-- All of a deck that its driver can tell, except the power register. -/
structure DriverView where
  cpu : Cpu
  cells : Cells
  bank : Nat
  modulo : UInt8
  control : UInt8
  read : { address : UInt16 // address ≠ powerAddress } → UInt8

def driverView (deck : Deck) : DriverView where
  cpu := deck.cpu
  cells := deck.memory.cells
  bank := deck.memory.bank
  modulo := deck.memory.rate.modulo
  control := deck.memory.rate.control
  read address := deck.memory.read address

theorem Related.driverView_eq {a b : Deck} (h : Related Memory.Matches a b) :
    a.driverView = b.driverView := by
  have hread : a.driverView.read = b.driverView.read :=
    funext fun address => h.memory.read_eq address.property
  simp only [driverView, DriverView.mk.injEq]
  exact ⟨h.cpu_eq, h.memory.cells_eq, h.memory.bank_eq, h.memory.modulo_eq, h.memory.control_eq,
    hread⟩

/-- The answers to the actions of the processor's side, each with what the driver can tell after
it. -/
def driverNotes : Deck → List Action → List (Answer × DriverView) :=
  notes after Action.isDriven fun deck action =>
    ((deck.perform action).1, (deck.after action).driverView)

/-- What can be read in the power register before the instructions of each action of the processor's
side. -/
def powerNotes : Deck → List Action → List (List UInt8) := notes after Action.isDriven powerReads

/-- The power register reads alike before corresponding instructions of two runs. -/
def PowerAgrees (a b : Deck) (actionsA actionsB : List Action) : Prop :=
  ∀ p ∈ (a.powerNotes actionsA).zip (b.powerNotes actionsB), SameReads p.1 p.2

theorem fst_eq_snd_of_mem_zip_self {α : Type} {xs : List α} {p : α × α} (h : p ∈ xs.zip xs) :
    p.1 = p.2 := by
  induction xs with
  | nil => contradiction
  | cons x xs ih =>
    cases h with
    | head => rfl
    | tail _ h => exact ih h

theorem powerAgrees_of_eq {a b : Deck} {actionsA actionsB : List Action}
    (h : a.powerNotes actionsA = b.powerNotes actionsB) : PowerAgrees a b actionsA actionsB := by
  intro p hp
  rw [h] at hp
  rw [SameReads, fst_eq_snd_of_mem_zip_self hp]
  exact fun q hq => fst_eq_snd_of_mem_zip_self hq

theorem Related.powerReads_eq {a b : Deck} (h : Related Memory.Powers a b) (action : Action) :
    a.powerReads action = b.powerReads action := by
  cases action with
  | step => exact congrArg (fun value => [value]) h.memory.read_power
  | frame =>
    simp only [powerReads, restingSP, h.album_eq, h.budget_eq, h.cpu_eq]
    exact routinePowerReads_eq _ _ _ h.memory
  | _ => rfl

/-- The sound of a deck reaches its driver through the power register only. Take two decks that
begin the same track of an album, whatever their sample rates, volumes and speeds are, and let the
processors of both do the same, while either renders, mutes and sets what it likes in between. If
the power register reads alike before corresponding instructions, then the answers are the same and
so is all that the drivers can tell, after every action. Where nothing is rendered, it reads
alike. -/
theorem sound_feeds_back_through_power {album : Album} {configA configB : Config} {track : Nat}
    {a b : Deck} (ha : Begins album configA track a) (hb : Begins album configB track b)
    (hbudget : configA.stepBudget = configB.stepBudget) {actionsA actionsB : List Action}
    (htick : Action.tick ∉ actionsA ++ actionsB)
    (hsame : actionsA.filter Action.isDriven = actionsB.filter Action.isDriven) :
    (PowerAgrees a b actionsA actionsB →
      a.driverNotes actionsA = b.driverNotes actionsB ∧
        (a.afterAll actionsA).driverView = (b.afterAll actionsB).driverView) ∧
    ((∀ frames, Action.render frames ∉ actionsA ++ actionsB) →
      PowerAgrees a b actionsA actionsB) := by
  have haligned := aligned_of_filter_eq hsame
  have hticked : ∀ action ∈ actionsA ++ actionsB, action ≠ .tick := by
    rintro action hmem rfl
    exact htick hmem
  constructor
  · intro hagree
    have hown : KeptByOwn after Action.isDriven (Related Memory.Matches) actionsA actionsB :=
      keptByOwn_of_after Memory.congruence_matches fun action hmem hdriven _ =>
        matches_after hdriven (hticked action hmem)
    have hshared : ∀ action : Action, action.isDriven = true → ∀ s t : Deck,
        Related Memory.Matches s t → SameReads (s.powerReads action) (t.powerReads action) →
          ((s.perform action).1, (s.after action).driverView) =
              ((t.perform action).1, (t.after action).driverView) ∧
            Related Memory.Matches (s.after action) (t.after action) := by
      intro action hdriven s t hst hreads
      obtain ⟨hanswer, hnext⟩ := hst.perform Memory.congruence_matches hdriven hreads
      exact ⟨Prod.ext hanswer hnext.driverView_eq, hnext⟩
    obtain ⟨hnotes, hend⟩ := haligned.notes_eq_of_agree powerReads SameReads hown hshared
      (ha.related Memory.congruence_matches hb hbudget) hagree
    exact ⟨hnotes, hend.driverView_eq⟩
  · intro hrender
    have hrendered : ∀ action ∈ actionsA ++ actionsB, ∀ frames, action ≠ .render frames := by
      rintro action hmem frames rfl
      exact hrender frames hmem
    have hown : KeptByOwn after Action.isDriven (Related Memory.Powers) actionsA actionsB :=
      keptByOwn_of_after Memory.congruence_powers fun action hmem hdriven _ =>
        powers_after hdriven (hticked action hmem) (hrendered action hmem)
    apply powerAgrees_of_eq
    refine (haligned.notes_eq hown ?_ (ha.related Memory.congruence_powers hb hbudget)).1
    intro action hdriven s t hst
    have hreads := hst.powerReads_eq action
    have hsame : SameReads (s.powerReads action) (t.powerReads action) := by
      rw [hreads]
      exact fun q hq => fst_eq_snd_of_mem_zip_self hq
    exact ⟨hreads, (hst.perform Memory.congruence_powers hdriven hsame).2⟩

/-- A driver whose routines lie in the wave table. -/
def waveAlbum : Album where
  header :=
    { version := 1
      trackTotal := 2
      startTrack := 1
      loadAddress := 0x4000
      initAddress := 0xFF30
      playAddress := 0xFF30
      stackPointer := 0xDFFE
      timerModulo := 0
      timerControl := 0
      title := "Wave"
      author := ""
      copyright := "" }
  rom := Album.Rom.blank.put 1 .empty

def waveDeck (config : Config) : Deck := restart (unstarted waveAlbum config)

/-- Two frames that are rendered while the first channel is on leave no trace for the driver. -/
theorem sound_feeds_back_through_power_waveAlbum :
    let a := waveDeck { stepBudget := 3 }
    let b := waveDeck { sampleRate := 44100, speed := 2.0, stepBudget := 3 }
    let actionsA : List Action := [.poke 0xFF12 0xF0, .poke 0xFF14 0x80, .step, .render 2, .frame]
    let actionsB : List Action := [.setSpeed 0.5, .poke 0xFF12 0xF0, .toggleMute square1,
      .poke 0xFF14 0x80, .step, .frame]
    a.powerNotes actionsA = [[], [], [0xF1], [0xF1, 0xF1, 0xF1]] ∧
      PowerAgrees a b actionsA actionsB ∧ a.driverNotes actionsA = b.driverNotes actionsB ∧
      (a.afterAll actionsA).driverView = (b.afterAll actionsB).driverView := by
  intro a b actionsA actionsB
  have hnew : ∀ config, Deck.new waveAlbum config = .ok (waveDeck config) := fun _ => rfl
  have ha : Begins waveAlbum { stepBudget := 3 } 0 a := begins_of_new (hnew _)
  have hb : Begins waveAlbum { sampleRate := 44100, speed := 2.0, stepBudget := 3 } 0 b :=
    begins_of_new (hnew _)
  have hnotes : a.powerNotes actionsA = [[], [], [0xF1], [0xF1, 0xF1, 0xF1]] := by decide +kernel
  have hnotes' : b.powerNotes actionsB = [[], [], [0xF1], [0xF1, 0xF1, 0xF1]] := by decide +kernel
  have hagree : PowerAgrees a b actionsA actionsB :=
    powerAgrees_of_eq (hnotes.trans hnotes'.symm)
  have htick : Action.tick ∉ actionsA ++ actionsB := by simp [actionsA, actionsB]
  exact ⟨hnotes, hagree, (sound_feeds_back_through_power ha hb rfl htick rfl).1 hagree⟩

end Deck
end Chiptune
