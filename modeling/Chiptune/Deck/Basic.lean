import Chiptune.Album.Basic
import Chiptune.Cpu.Basic

/-!
# The deck

A deck plays one track of an album at a time. It runs the music driver of the
album on a processor: first the init routine of the track, then the play routine
once per driver tick. The sound of a tick is rendered after its routine has
returned, and ticks that are shorter than one frame are batched.
-/
namespace Chiptune

open Sound (Frame)

structure Deck.Config where
  sampleRate : UInt32 := 48000
  /-- The master volume, from zero to one. -/
  volume : Float32 := 1.0
  /-- The playback speed, from a tenth to two. -/
  speed : Float32 := 1.0
  /-- How many instructions one tick may take before it is cut off. -/
  stepBudget : Nat := 0x100000
  deriving DecidableEq

structure Deck where
  album : Album
  config : Deck.Config
  cpu : Cpu
  memory : Memory
  /-- The track that plays, counted from zero. -/
  track : Nat
  paused : Bool

/-- How running the driver for one tick ends. -/
inductive FrameOutcome where
  /-- The routine returned after so many instructions. -/
  | completed (steps : Nat)
  /-- The budget ran out first; the next tick goes on from there. -/
  | incomplete
  deriving DecidableEq, Repr

/-- Writes bytes at consecutive addresses. -/
def Memory.writeAll (memory : Memory) (address : UInt16) : List UInt8 → Memory
  | [] => memory
  | value :: rest => (memory.write address value).writeAll (address + 1) rest

namespace Deck

/-- What the sound registers from 0xFF10 on hold after power-on. -/
def powerOnRegisters : List UInt8 :=
  [0x80, 0xBF, 0xF3, 0xFF, 0x3F, 0xFF, 0x3F, 0x00, 0xFF, 0x3F, 0x7F, 0xFF, 0x9F, 0xFF, 0x3F,
    0xFF, 0xFF, 0x00, 0x00, 0x3F, 0x77, 0xF3, 0xF1]

/-- What the wave table holds after power-on. -/
def powerOnWave : List UInt8 :=
  [0xAC, 0xDD, 0xDA, 0x48, 0x36, 0x02, 0xCF, 0x16, 0x2C, 0x04, 0xE5, 0x2C, 0xAC, 0xDD, 0xDA,
    0x48]

def trackCount (deck : Deck) : Nat := deck.album.header.trackCount

/-- The stack pointer at rest, when no routine runs. -/
def restingSP (deck : Deck) : UInt16 := deck.album.header.stackPointer

/-- The processor about to call the init routine of a track. The routine returns to the slot below
the resting stack pointer. -/
def initCpu (header : Album.Header) (track : Nat) : Cpu where
  registers :=
    { a := UInt8.ofNat track
      sp := header.stackPointer - 2
      pc := header.initAddress }
  vectors := header.loadAddress

/-- Both banks mapped and everything else cleared, the sound unit among it. -/
def clearedMemory (header : Album.Header) (memory : Memory) : Memory :=
  let memory := { memory with sound := memory.sound.reset }
  memory.clear.copyVectors header.loadAddress

/-- The cleared memory with the vertical blank interrupt enabled and the timer of the album set. -/
def timedMemory (header : Album.Header) (memory : Memory) : Memory :=
  let memory := (clearedMemory header memory).write 0xFFFF 0x01
  { memory with rate := memory.rate.setTimer header.timerModulo header.timerControl }

/-- The memory about to run the init routine: the sound registers get their values after power-on by
writing them. -/
def initMemory (header : Album.Header) (memory : Memory) : Memory :=
  ((timedMemory header memory).writeAll 0xFF10 powerOnRegisters).writeAll 0xFF30 powerOnWave

/-- Starts the current track over. The settings of the user are kept. -/
def restart (deck : Deck) : Deck :=
  { deck with
    cpu := initCpu deck.album.header deck.track
    memory := initMemory deck.album.header deck.memory }

/-- The track to start on: the album's choice, or the first one if that is out of range. -/
def firstTrack (album : Album) : Nat :=
  if album.header.defaultTrack < album.header.trackCount then album.header.defaultTrack else 0

/-- The memory of a deck that has not started yet. -/
def blankMemory (album : Album) (config : Config) : Memory :=
  let memory := Memory.new album.rom config.sampleRate
  { memory with
    sound := memory.sound.setMasterVolume config.volume
    rate := memory.rate.setSpeed config.speed }

/-- A deck that has not started yet. -/
def unstarted (album : Album) (config : Config) : Deck where
  album
  config
  cpu := {}
  memory := blankMemory album config
  track := firstTrack album
  paused := false

/-- A deck at the beginning of the track to start on. -/
def new (album : Album) (config : Config) : Except AlbumError Deck := do
  album.header.checkTrack (firstTrack album)
  return restart (unstarted album config)

def selectTrack (deck : Deck) (track : Nat) : Except AlbumError Deck := do
  deck.album.header.checkTrack track
  return restart { deck with track }

def nextTrack (deck : Deck) : Deck :=
  restart { deck with track := (deck.track + 1) % deck.trackCount }

def previousTrack (deck : Deck) : Deck :=
  restart { deck with track := (deck.track + deck.trackCount - 1) % deck.trackCount }

/-- A routine after some of its instructions. -/
structure Routine where
  cpu : Cpu
  memory : Memory
  outcome : FrameOutcome

/-- Runs instructions until the stack pointer is at rest, at most `budget` of them. -/
def runRoutine (rest : UInt16) : (budget : Nat) → (steps : Nat) → Cpu → Memory → Routine
  | 0, steps, cpu, memory =>
    ⟨cpu, memory, if cpu.registers.sp = rest then .completed steps else .incomplete⟩
  | budget + 1, steps, cpu, memory =>
    if cpu.registers.sp = rest then ⟨cpu, memory, .completed steps⟩
    else
      let stepped := cpu.step memory
      runRoutine rest budget (steps + 1) stepped.cpu stepped.memory

/-- The processor about to call the play routine. -/
def armed (header : Album.Header) (cpu : Cpu) : Cpu :=
  { cpu with
    registers :=
      { cpu.registers with pc := header.playAddress, sp := header.stackPointer - 2 } }

/-- Runs the driver until its routine returns, and arms the play routine for the next time. -/
def runFrame (deck : Deck) : FrameOutcome × Deck :=
  match deck with
  | ⟨album, config, cpu, memory, track, paused⟩ =>
    let run := runRoutine album.header.stackPointer config.stepBudget 0 cpu memory
    let cpu :=
      match run.outcome with
      | .completed _ => armed album.header run.cpu
      | .incomplete => run.cpu
    (run.outcome, ⟨album, config, cpu, run.memory, track, paused⟩)

def framesPerTick (deck : Deck) : Nat := deck.memory.rate.framesPerTick

def render (deck : Deck) (frames : Nat) : Array Frame × Deck :=
  let rendered := deck.memory.sound.render frames
  (rendered.1, { deck with memory := { deck.memory with sound := rendered.2 } })

/-- How many frames of output a tick is worth. -/
def tickShare (rate : TickRate) : Float32 := rate.sampleRate.toFloat32 / rate.hz

/-- A bound on how many ticks of a rate are worth one frame, with room for rounding. -/
def batchLimit (rate : TickRate) : Nat :=
  2 * (rate.hz / rate.sampleRate.toFloat32).toUInt64.toNat + 2

/-- Runs further ticks until a whole frame has elapsed or ticks become longer. -/
def batch (share : Float32) : (limit : Nat) → (elapsed : Float32) → Deck → Deck
  | 0, _, deck => deck
  | limit + 1, elapsed, deck =>
    if elapsed < 1.0 && deck.framesPerTick == 0 then
      batch share limit (elapsed + share) deck.runFrame.2
    else deck

/-- Runs the driver for the next block, which has at least one frame: one tick, or as many short
ones as make up a frame. -/
def advance (deck : Deck) : Nat × Deck :=
  let deck := deck.runFrame.2
  let frames := deck.framesPerTick
  if frames = 0 then
    let share := tickShare deck.memory.rate
    (1, batch share (batchLimit deck.memory.rate) share deck)
  else (frames, deck)

/-- Runs one tick and renders it. While paused there is nothing to play. -/
def playTick (deck : Deck) : Option (Array Frame) × Deck :=
  if deck.paused then (none, deck)
  else
    let advanced := deck.advance
    let rendered := advanced.2.render advanced.1
    (some rendered.1, rendered.2)

def togglePause (deck : Deck) : Deck := { deck with paused := !deck.paused }

def mapSound (deck : Deck) (f : SoundUnit → SoundUnit) : Deck :=
  { deck with memory := { deck.memory with sound := f deck.memory.sound } }

def isMuted (deck : Deck) (channel : Fin 4) : Bool := deck.memory.sound.isMuted channel

def setMuted (deck : Deck) (channel : Fin 4) (muted : Bool) : Deck :=
  deck.mapSound (·.setMuted channel muted)

def toggleMute (deck : Deck) (channel : Fin 4) : Deck := deck.mapSound (·.toggleMute channel)

def volume (deck : Deck) : Float32 := deck.memory.sound.masterVolume

def setVolume (deck : Deck) (volume : Float32) : Deck := deck.mapSound (·.setMasterVolume volume)

def speed (deck : Deck) : Float32 := deck.memory.rate.speed

def setSpeed (deck : Deck) (speed : Float32) : Deck :=
  { deck with memory := { deck.memory with rate := deck.memory.rate.setSpeed speed } }

def adjustSpeed (deck : Deck) (delta : Float32) : Deck := deck.setSpeed (deck.speed + delta)

/-- Writes one byte of memory, as the driver would. -/
def poke (deck : Deck) (address : UInt16) (value : UInt8) : Deck :=
  { deck with memory := deck.memory.write address value }

/-- Runs one instruction. -/
def step (deck : Deck) : Bool × Deck :=
  let stepped := deck.cpu.step deck.memory
  (stepped.returned, { deck with cpu := stepped.cpu, memory := stepped.memory })

end Deck
end Chiptune
