import Chiptune.Command.Basic
import Chiptune.Proofs.Batching
import Chiptune.Proofs.CheckedSound

/-!
# Commands that check every step

The commands of the user once more, and the restart of a track that most of them
end with, with every look-up, difference, remainder and sum of machine words as a
step that has a result only where it is defined. On a deck that is reached every
command has a result, and it is the plain one.
-/
namespace Chiptune

open Sound (checked checked_of)

/-! ### The rate of ticks -/

namespace TickRate

/-- The clocks that the low two bits of the control register select from. -/
def clocks : Vector Float32 4 := #v[4096.0, 262144.0, 65536.0, 16384.0]

def timerHz? (modulo control : UInt8) : Option Float32 :=
  if control &&& 0x04 == 0 then some verticalBlankHz
  else do
    let clock ← clocks[(control &&& 0x03).toNat]?
    let reload ← checked (modulo.toUInt32 ≤ 256) (256 - modulo.toUInt32)
    let hz := clock / reload.toFloat32
    some (if control &&& 0x80 == 0 then hz else hz * 2.0)

def recompute? (rate : TickRate) : Option TickRate := do
  let timer ← timerHz? rate.modulo rate.control
  let hz := timer * rate.speed
  let frames := (rate.sampleRate.toFloat32 / hz).toUInt64.toNat
  let samplesPerTick ← checked (frames * 2 < 2 ^ 64) (frames * 2)
  some { rate with hz, samplesPerTick }

def write? (rate : TickRate) (address : UInt16) (value : UInt8) : Option TickRate :=
  if rate.changedBy address value then
    if address = 0xFF06 then recompute? { rate with modulo := value }
    else recompute? { rate with control := value }
  else some rate

def setTimer? (rate : TickRate) (modulo control : UInt8) : Option TickRate :=
  recompute? { rate with modulo, control }

def setSpeed? (rate : TickRate) (speed : Float32) : Option TickRate :=
  recompute? { rate with speed := clampSpeed speed }

theorem timerHz?_eq (modulo control : UInt8) :
    timerHz? modulo control = some (timerHz modulo control) := by
  have hclock : ∀ control : UInt8,
      clocks[(control &&& 0x03).toNat]? = some (clockHz control) := by decide +kernel
  have hreload : modulo.toUInt32 ≤ 256 := by
    have hlt := modulo.toNat_lt
    exact UInt32.le_iff_toNat_le.mpr (by simp; omega)
  simp only [timerHz?, timerHz, hclock, checked_of hreload, Option.bind_eq_bind, Option.bind_some]
  split
  · rfl
  · rfl

theorem below_toFloat32 (n : UInt32) : Below 34 n.toFloat32 := by
  by_cases hn : n = 0
  · subst hn
    decide
  · exact (Within.toFloat32_of_ne hn).below (by norm_num)

variable {rate : TickRate}

/-- A tick is worth fewer samples than a machine word can count. -/
theorem samples_lt (hspeed : clampSpeed rate.speed = rate.speed) :
    let hz := timerHz rate.modulo rate.control * rate.speed
    (rate.sampleRate.toFloat32 / hz).toUInt64.toNat * 2 < 2 ^ 64 := by
  intro hz
  have hframes : Below (35 : Nat) (rate.sampleRate.toFloat32 / hz) := by
    obtain hnan | hhz := within_hz (current_recompute rate) hspeed
    · exact (hnan.div _).below _
    · have hlow : AtLeast 0 hz := hhz.atLeast (by norm_num)
      exact (below_toFloat32 _).div hlow (by decide) (by decide)
  have hlt := hframes.toUInt64_lt
  omega

theorem recompute?_eq (hspeed : clampSpeed rate.speed = rate.speed) :
    rate.recompute? = some rate.recompute := by
  simp only [recompute?, timerHz?_eq, checked_of (samples_lt hspeed), Option.bind_eq_bind,
    Option.bind_some]
  rfl

theorem write?_eq (hspeed : clampSpeed rate.speed = rate.speed) (address : UInt16)
    (value : UInt8) : rate.write? address value = some (rate.write address value) := by
  have hmodulo : recompute? { rate with modulo := value } =
      some (recompute { rate with modulo := value }) := recompute?_eq hspeed
  have hcontrol : recompute? { rate with control := value } =
      some (recompute { rate with control := value }) := recompute?_eq hspeed
  simp only [write?, write, hmodulo, hcontrol]
  split
  · split <;> rfl
  · rfl

end TickRate

/-! ### Memory -/

namespace Memory

def write? (memory : Memory) (address : UInt16) (value : UInt8) : Option Memory :=
  match Region.ofAddress address with
  | .timer => do
    let rate ← memory.rate.write? address value
    some { memory with rate }
  | .sound => do
    let sound ← memory.sound.writeRegister? value (Sound.Register.ofAddress address)
    some { memory with sound }
  | .rom | .bankSelect | .plain => some (memory.write address value)

def writeAll? (memory : Memory) (address : UInt16) : List UInt8 → Option Memory
  | [] => some memory
  | value :: rest => do
    let memory ← memory.write? address value
    let next ← checked (address.toNat + 1 < 2 ^ 16) (address + 1)
    memory.writeAll? next rest

def copyVectors? (memory : Memory) (load : UInt16) : Option Memory :=
  checked (load.toNat ≤ Cells.vectorEnd load ∧ Cells.vectorEnd load ≤ addressCount)
    (memory.copyVectors load)

variable {memory : Memory}

theorem write?_eq (hspeed : TickRate.clampSpeed memory.rate.speed = memory.rate.speed)
    (address : UInt16) (value : UInt8) :
    memory.write? address value = some (memory.write address value) := by
  unfold write? write
  cases Region.ofAddress address with
  | timer => rw [TickRate.write?_eq hspeed]; rfl
  | sound => rw [SoundUnit.writeRegister?_eq]; rfl
  | rom | bankSelect | plain => rfl

theorem speed_write (address : UInt16) (value : UInt8) :
    (memory.write address value).rate.speed = memory.rate.speed :=
  congrArg Fixed.speed (memory.fixed_write address value)

theorem speed_writeAll (address : UInt16) (values : List UInt8) :
    (memory.writeAll address values).rate.speed = memory.rate.speed :=
  congrArg Fixed.speed (memory.ran_writeAll address values).fixed_eq

theorem writeAll?_eq (hspeed : TickRate.clampSpeed memory.rate.speed = memory.rate.speed)
    (address : UInt16) (values : List UInt8) (hlast : address.toNat + values.length < 2 ^ 16) :
    memory.writeAll? address values = some (memory.writeAll address values) := by
  induction values generalizing memory address with
  | nil => rfl
  | cons value rest ih =>
    rw [List.length_cons] at hlast
    have hnext : address.toNat + 1 < 2 ^ 16 := by omega
    have haddress : (address + 1).toNat = address.toNat + 1 := by
      rw [UInt16.toNat_add]
      exact Nat.mod_eq_of_lt hnext
    have hspeed' : TickRate.clampSpeed (memory.write address value).rate.speed =
        (memory.write address value).rate.speed := by rw [speed_write, hspeed]
    simp only [writeAll?, write?_eq hspeed, checked_of hnext, Option.bind_eq_bind,
      Option.bind_some]
    exact ih hspeed' (address + 1) (by omega)

theorem copyVectors?_eq (load : UInt16) :
    memory.copyVectors? load = some (memory.copyVectors load) := by
  have hload : load.toNat < 2 ^ 16 := load.toNat_lt
  apply checked_of
  simp only [Cells.vectorEnd, addressCount]
  omega

end Memory

/-! ### Tracks -/

namespace Deck

def clearedMemory? (header : Album.Header) (memory : Memory) : Option Memory :=
  let memory := { memory with sound := memory.sound.reset }
  memory.clear.copyVectors? header.loadAddress

def timedMemory? (header : Album.Header) (memory : Memory) : Option Memory := do
  let cleared ← clearedMemory? header memory
  let memory ← cleared.write? 0xFFFF 0x01
  let rate ← memory.rate.setTimer? header.timerModulo header.timerControl
  some { memory with rate }

def initMemory? (header : Album.Header) (memory : Memory) : Option Memory := do
  let timed ← timedMemory? header memory
  let memory ← timed.writeAll? 0xFF10 powerOnRegisters
  memory.writeAll? 0xFF30 powerOnWave

/-- The log names the track by its number counted from one. -/
def restart? (deck : Deck) : Option Deck := do
  let _ ← checked (deck.track + 1 < 2 ^ 64) (deck.track + 1)
  let memory ← initMemory? deck.album.header deck.memory
  some { deck with cpu := initCpu deck.album.header deck.track, memory }

def selectTrack? (deck : Deck) (track : Nat) : Option Deck :=
  match deck.album.header.checkTrack track with
  | .ok _ => restart? { deck with track }
  | .error _ => some deck

def nextTrack? (deck : Deck) : Option Deck := do
  let next ← checked (deck.track + 1 < 2 ^ 64) (deck.track + 1)
  let track ← checked (deck.trackCount ≠ 0) (next % deck.trackCount)
  restart? { deck with track }

def previousTrack? (deck : Deck) : Option Deck := do
  let sum ← checked (deck.track + deck.trackCount < 2 ^ 64) (deck.track + deck.trackCount)
  let previous ← checked (1 ≤ sum) (sum - 1)
  let track ← checked (deck.trackCount ≠ 0) (previous % deck.trackCount)
  restart? { deck with track }

/-- The channel is any number, and there are four mute flags. -/
def toggleMute? (deck : Deck) (channel : Nat) : Option Deck := do
  let channel ← if h : channel < 4 then some ⟨channel, h⟩ else none
  some (deck.toggleMute channel)

def setSpeed? (deck : Deck) (speed : Float32) : Option Deck := do
  let rate ← deck.memory.rate.setSpeed? speed
  some { deck with memory := { deck.memory with rate } }

theorem timedMemory?_eq (header : Album.Header) {memory : Memory}
    (hspeed : TickRate.clampSpeed memory.rate.speed = memory.rate.speed) :
    timedMemory? header memory = some (timedMemory header memory) := by
  have hwrite := (clearedMemory header memory).write?_eq hspeed 0xFFFF 0x01
  have htimer : ((clearedMemory header memory).write 0xFFFF 0x01).rate.setTimer?
        header.timerModulo header.timerControl =
      some (timedMemory header memory).rate := TickRate.recompute?_eq hspeed
  have hcleared : clearedMemory? header memory = some (clearedMemory header memory) :=
    Memory.copyVectors?_eq header.loadAddress
  simp only [timedMemory?, hcleared, hwrite, htimer, Option.bind_eq_bind, Option.bind_some]
  rfl

theorem initMemory?_eq (header : Album.Header) {memory : Memory}
    (hspeed : TickRate.clampSpeed memory.rate.speed = memory.rate.speed) :
    initMemory? header memory = some (initMemory header memory) := by
  have htimed : TickRate.clampSpeed (timedMemory header memory).rate.speed =
      (timedMemory header memory).rate.speed := hspeed
  have hregisters := Memory.writeAll?_eq htimed 0xFF10 powerOnRegisters (by decide)
  have hset : TickRate.clampSpeed
        ((timedMemory header memory).writeAll 0xFF10 powerOnRegisters).rate.speed =
      ((timedMemory header memory).writeAll 0xFF10 powerOnRegisters).rate.speed := by
    rw [Memory.speed_writeAll, htimed]
  have hwave := Memory.writeAll?_eq hset 0xFF30 powerOnWave (by decide)
  simp only [initMemory?, timedMemory?_eq header hspeed, hregisters, Option.bind_eq_bind,
    Option.bind_some, hwave]
  rfl

theorem trackCount_lt (deck : Deck) : deck.trackCount < 2 ^ 8 :=
  deck.album.header.trackTotal.toNat_lt

variable {deck : Deck}

theorem restart?_eq (htrack : deck.track < deck.trackCount)
    (hspeed : TickRate.clampSpeed deck.speed = deck.speed) :
    deck.restart? = some (restart deck) := by
  have hcount := deck.trackCount_lt
  have hnumber : deck.track + 1 < 2 ^ 64 := by omega
  simp only [restart?, checked_of hnumber, initMemory?_eq _ hspeed, Option.bind_eq_bind,
    Option.bind_some]
  rfl

theorem selectTrack?_eq (hspeed : TickRate.clampSpeed deck.speed = deck.speed) (track : Nat) :
    deck.selectTrack? track = some (Command.apply deck (.selectTrack track)) := by
  by_cases hlt : track < deck.trackCount
  · have hcheck : deck.album.header.checkTrack track = .ok () := if_pos hlt
    have hrestart : restart? { deck with track } = some (restart { deck with track }) :=
      restart?_eq hlt hspeed
    simp only [selectTrack?, hcheck, Command.apply, selectTrack_of_lt hlt, hrestart]
  · have hcheck : deck.album.header.checkTrack track =
        .error (.trackOutOfRange track deck.trackCount) := if_neg hlt
    simp only [selectTrack?, hcheck, Command.apply, selectTrack_of_le (Nat.not_lt.mp hlt)]

theorem nextTrack?_eq (htrack : deck.track < deck.trackCount)
    (hspeed : TickRate.clampSpeed deck.speed = deck.speed) :
    deck.nextTrack? = some deck.nextTrack := by
  have hcount := deck.trackCount_lt
  have hnext : deck.track + 1 < 2 ^ 64 := by omega
  have hne : deck.trackCount ≠ 0 := by omega
  have hlt : (deck.track + 1) % deck.trackCount < deck.trackCount := Nat.mod_lt _ (by omega)
  have hrestart : restart? { deck with track := (deck.track + 1) % deck.trackCount } =
      some deck.nextTrack := restart?_eq hlt hspeed
  simp only [nextTrack?, checked_of hnext, checked_of hne, Option.bind_eq_bind, Option.bind_some,
    hrestart]

theorem previousTrack?_eq (htrack : deck.track < deck.trackCount)
    (hspeed : TickRate.clampSpeed deck.speed = deck.speed) :
    deck.previousTrack? = some deck.previousTrack := by
  have hcount := deck.trackCount_lt
  have hsum : deck.track + deck.trackCount < 2 ^ 64 := by omega
  have hprevious : 1 ≤ deck.track + deck.trackCount := by omega
  have hne : deck.trackCount ≠ 0 := by omega
  have hlt : (deck.track + deck.trackCount - 1) % deck.trackCount < deck.trackCount :=
    Nat.mod_lt _ (by omega)
  have hrestart : restart?
        { deck with track := (deck.track + deck.trackCount - 1) % deck.trackCount } =
      some deck.previousTrack := restart?_eq hlt hspeed
  simp only [previousTrack?, checked_of hsum, checked_of hprevious, checked_of hne,
    Option.bind_eq_bind, Option.bind_some, hrestart]

theorem toggleMute?_eq (channel : Fin 4) :
    deck.toggleMute? channel.val = some (deck.toggleMute channel) := by
  simp only [toggleMute?, dif_pos channel.isLt, Option.bind_eq_bind, Option.bind_some]

theorem setSpeed?_eq (speed : Float32) : deck.setSpeed? speed = some (deck.setSpeed speed) := by
  have hrate : deck.memory.rate.setSpeed? speed = some (deck.memory.rate.setSpeed speed) :=
    TickRate.recompute?_eq (clampSpeed_clampSpeed speed)
  simp only [setSpeed?, hrate, Option.bind_eq_bind, Option.bind_some]
  rfl

end Deck

namespace Command

def carryOut? (deck : Deck) : Command → Option Deck
  | .toggleMute channel => deck.toggleMute? channel.val
  | .selectTrack track => deck.selectTrack? track
  | .nextTrack => deck.nextTrack?
  | .previousTrack => deck.previousTrack?
  | .togglePause => some deck.togglePause
  | .volume percent => some (deck.setVolume percent.part)
  | .faster => deck.setSpeed? (deck.speed + speedStep)
  | .slower => deck.setSpeed? (deck.speed + -speedStep)
  | .normalSpeed => deck.setSpeed? 1.0
  | .restart => deck.restart?
  | .quit => some deck

/-- Every command has a result on a deck that plays a track at a speed within the limits. -/
theorem carryOut?_eq {deck : Deck} (htrack : deck.track < deck.trackCount)
    (hspeed : TickRate.clampSpeed deck.speed = deck.speed) (command : Command) :
    command.carryOut? deck = some (command.apply deck) := by
  cases command with
  | toggleMute channel => exact Deck.toggleMute?_eq channel
  | selectTrack track => exact Deck.selectTrack?_eq hspeed track
  | nextTrack => exact Deck.nextTrack?_eq htrack hspeed
  | previousTrack => exact Deck.previousTrack?_eq htrack hspeed
  | faster | slower | normalSpeed => exact Deck.setSpeed?_eq _
  | restart => exact Deck.restart?_eq htrack hspeed
  | togglePause | volume | quit => rfl

end Command
end Chiptune
