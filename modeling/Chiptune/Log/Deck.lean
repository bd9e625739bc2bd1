import Chiptune.Deck.Basic
import Chiptune.Log.Journal
import Chiptune.Log.Memory

/-!
# Events of playing

The events of loading an album, of starting a track and of running its driver,
in the order in which they happen. What happens itself is determined by the
operations of the deck; here they are only watched.
-/
namespace Chiptune

open Log (Event Journal)

namespace Album

/-- One event for each bank that is filled. Of an image with too many banks, those within the limit
are filled first. -/
def fillEvents (number : Nat) (offset : Fin bankSize) (remaining : ByteArray) : List Event :=
  if bankLimit ≤ number then []
  else
    let rest := Rom.remainder offset remaining
    .bankLoaded number (Rom.taken offset remaining) ::
      if rest.isEmpty then [] else fillEvents (number + 1) ⟨0, bankSize_pos⟩ rest
termination_by bankLimit - number

def bankEvents (image : ByteArray) (load : Nat) : List Event :=
  fillEvents (load / bankSize) (Rom.firstOffset load) image

def loadEvents (data : ByteArray) : List Event :=
  match Header.parse data with
  | .error _ => []
  | .ok header =>
    let banks := bankEvents (data.extract Header.size data.size) header.loadAddress.toNat
    match ofBytes data with
    | .error _ => banks
    | .ok album => banks ++ [.albumLoaded album.header]

end Album

namespace Deck

def restartEvents (deck : Deck) : List Event :=
  let header := deck.album.header
  let timed := timedMemory header deck.memory
  [.trackStarted deck.track deck.trackCount]
    ++ (clearedMemory header deck.memory).writeEvents 0xFFFF 0x01
    ++ [timed.rate.event]
    ++ timed.writeAllEvents 0xFF10 powerOnRegisters
    ++ (timed.writeAll 0xFF10 powerOnRegisters).writeAllEvents 0xFF30 powerOnWave
    ++ [.cpuReady (initCpu header deck.track).registers]

/-- The events of making a deck. An album without tracks gets as far as choosing one. -/
def newEvents (album : Album) (config : Config) : List Event :=
  let blank := unstarted album config
  let chosen :=
    match album.header.checkTrack album.header.defaultTrack with
    | .ok _ => []
    | .error _ => [.startTrackReplaced album.header.startTrack]
  let started :=
    match album.header.checkTrack blank.track with
    | .ok _ => blank.restartEvents
    | .error _ => []
  [(Memory.new album.rom config.sampleRate).rate.event, blank.memory.rate.event]
    ++ chosen ++ started

def selectEvents (deck : Deck) (track : Nat) : List Event :=
  match deck.album.header.checkTrack track with
  | .error _ => []
  | .ok _ => restartEvents { deck with track }

/-- Watches the instructions of a routine. -/
def watchRoutine (rest : UInt16) : (budget : Nat) → Cpu → Memory → Journal → Journal
  | 0, _, _, journal => journal
  | budget + 1, cpu, memory, journal =>
    if cpu.registers.sp = rest then journal
    else
      let stepped := cpu.step memory
      watchRoutine rest budget stepped.cpu stepped.memory
        (journal.add (memory.applyEvents (cpu.effectIn memory).store))

/-- Watches one run of the driver. -/
def watchFrame (deck : Deck) (journal : Journal) : Journal :=
  let rest := deck.restingSP
  let budget := deck.config.stepBudget
  let journal := watchRoutine rest budget deck.cpu deck.memory journal
  match deck.runFrame with
  | (.completed _, _) => journal
  | (.incomplete, stopped) => journal.add [.budgetSpent budget stopped.cpu.registers]

/-- Watches the further ticks of a batch, and counts them all. -/
def watchBatch (share : Float32) : (limit : Nat) → (elapsed : Float32) → (ticks : Nat) → Deck →
    Journal → Journal
  | 0, _, ticks, _, journal => journal.add [.ticksBatched ticks]
  | limit + 1, elapsed, ticks, deck, journal =>
    if elapsed < 1.0 && deck.framesPerTick == 0 then
      watchBatch share limit (elapsed + share) (ticks + 1) deck.runFrame.2 (deck.watchFrame journal)
    else journal.add [.ticksBatched ticks]

/-- Watches how the next block is made. -/
def watchAdvance (deck : Deck) (journal : Journal) : Journal :=
  let journal := deck.watchFrame journal
  let deck := deck.runFrame.2
  if deck.framesPerTick = 0 then
    let share := tickShare deck.memory.rate
    watchBatch share (batchLimit deck.memory.rate) share 1 deck journal
  else journal

end Deck
end Chiptune
