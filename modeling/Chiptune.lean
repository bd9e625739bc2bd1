import Chiptune.Command.Input
import Chiptune.Cpu.Listing
import Chiptune.Deck.Status
import Chiptune.Main
import Chiptune.SampleQueue
import Chiptune.Storage.Disk
import Chiptune.Proofs.Period
import Chiptune.Proofs.EmptyPeriod
import Chiptune.Proofs.Magnitude
import Chiptune.Proofs.SoundBounds
import Chiptune.Proofs.CheckedParts
import Chiptune.Proofs.CheckedSound
import Chiptune.Proofs.DeckRun
import Chiptune.Proofs.Restart
import Chiptune.Proofs.RomWindow
import Chiptune.Proofs.Alignment
import Chiptune.Proofs.Feedback
import Chiptune.Proofs.ChannelIsolation
import Chiptune.Proofs.OutputSettings
import Chiptune.Proofs.Rounding
import Chiptune.Proofs.Numbers
import Chiptune.Proofs.Batching
import Chiptune.Proofs.RecordedAudio
import Chiptune.Proofs.StepBudget
import Chiptune.Proofs.BoundedFifo
import Chiptune.Proofs.ImageSplit
import Chiptune.Proofs.RegisterFile
import Chiptune.Proofs.InstructionSet
import Chiptune.Proofs.PowerSwitch
import Chiptune.Proofs.CurrentRate
import Chiptune.Proofs.CheckedControl
import Chiptune.Proofs.ControlSurface
import Chiptune.Proofs.MemoryMap
import Chiptune.Proofs.StepDiscipline
import Chiptune.Proofs.IntegerArithmetic
import Chiptune.Proofs.FlagRegister
import Chiptune.Proofs.CarryChain
import Chiptune.Proofs.DecimalArithmetic
import Chiptune.Proofs.WordArithmetic
import Chiptune.Proofs.LastInFirstOut
import Chiptune.Proofs.StoppedChannels
import Chiptune.Proofs.Trigger
import Chiptune.Proofs.SweepTrack
import Chiptune.Proofs.Saturation
import Chiptune.Proofs.CommandStream
import Chiptune.Proofs.HeaderLayout
import Chiptune.Proofs.AllOrNothing
import Chiptune.Proofs.CommandGrammar
import Chiptune.Proofs.NoisePeriod
import Chiptune.Proofs.ShownLevels
