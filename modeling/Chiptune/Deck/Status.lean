import Chiptune.Deck.Basic
import Chiptune.Text.Decimal

/-!
# The status line

One line about a deck: the track, then for each channel its note and levels,
then speed and volume in percent.
-/
namespace Chiptune

/-- The twelve semitones from A on. -/
def semitoneNames : Vector String 12 :=
  #v["A-", "A#", "B-", "C-", "C#", "D-", "D#", "E-", "F-", "F#", "G-", "G#"]

/-- The name of a note, with note 48 as A-4. Octaves begin at C. -/
def noteName (note : UInt8) : String :=
  semitoneNames[Fin.ofNat 12 note.toNat] ++ toString ((note.toNat + 9) / 12)

/-- A level as one digit; levels above fifteen show as fifteen. -/
def levelDigit (level : UInt8) : Char := Text.hexDigit (min level.toNat 15)

namespace Deck

def channelStatus (deck : Deck) (channel : Fin 4) : String :=
  let number := toString (channel.val + 1)
  if deck.isMuted channel then number ++ " ---  "
  else
    let note := ((deck.memory.sound.note? channel).map noteName).getD "..."
    let level := deck.memory.sound.level channel
    number ++ " " ++ note ++ " " ++ String.ofList [levelDigit level.1, levelDigit level.2]

/-- A part of one as a whole percentage, in three columns. -/
def percentText (part : Float32) : String := Text.alignRight 3 (Text.fixed 0 (part * 100.0)) ++ "%"

def statusLine (deck : Deck) : String :=
  let channels := " | ".intercalate ((List.finRange 4).map deck.channelStatus)
  "track " ++ toString deck.track ++ " (0-" ++ toString (deck.trackCount - 1) ++ ") | "
    ++ channels ++ " | speed " ++ percentText deck.speed ++ " vol " ++ percentText deck.volume
    ++ (if deck.paused then " [paused]" else "")

end Deck
end Chiptune
