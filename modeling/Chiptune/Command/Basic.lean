import Chiptune.Deck.Basic
import Chiptune.Percent
import Chiptune.Text.Blank
import Chiptune.Text.Listing
import Chiptune.Text.Numeral

/-!
# Typed commands

A command is one line: a word, and for two of them a number. `Command.ofWords?`
is the grammar on the words of a line, `Command.line` is the canonical line of a
command, and `Command.apply` carries it out on a deck.
-/
namespace Chiptune

open Sound (noise square1 square2 wave)
open Text (bitBound boundedNumeral? listed)

inductive Command where
  /-- A channel, counted from zero. -/
  | toggleMute (channel : Fin 4)
  /-- A track, counted from zero. -/
  | selectTrack (track : Nat)
  | nextTrack
  | previousTrack
  | togglePause
  | volume (percent : Percent)
  | faster
  | slower
  | normalSpeed
  | restart
  | quit
  deriving DecidableEq, Repr

namespace Command

/-- A volume in percent: a number below 256, cut down to a hundred. -/
def percent? (text : List Char) : Option Percent :=
  (boundedNumeral? (bitBound 8) text).map .cut

def ofWords? : List (List Char) → Option Command
  | [['1']] => some (.toggleMute square1)
  | [['2']] => some (.toggleMute square2)
  | [['3']] => some (.toggleMute wave)
  | [['4']] => some (.toggleMute noise)
  | [['t'], number] => (boundedNumeral? (bitBound 64) number).map .selectTrack
  | [['n']] => some .nextTrack
  | [['b']] => some .previousTrack
  | [['p']] => some .togglePause
  | [['v'], number] => (percent? number).map .volume
  | [['+']] => some .faster
  | [['-']] => some .slower
  | [['=']] => some .normalSpeed
  | [['r']] => some .restart
  | [['q']] => some .quit
  | _ => none

def parse? (line : String) : Option Command := ofWords? (Text.words line.toList)

/-- The canonical line of a command. -/
def line : Command → String
  | .toggleMute channel => toString (channel.val + 1)
  | .selectTrack track => "t " ++ toString track
  | .nextTrack => "n"
  | .previousTrack => "b"
  | .togglePause => "p"
  | .volume percent => "v " ++ toString percent.val
  | .faster => "+"
  | .slower => "-"
  | .normalSpeed => "="
  | .restart => "r"
  | .quit => "q"

/-- The name of a command in a listing, with its operand in parentheses. -/
def listing : Command → String
  | .toggleMute channel => listed "ToggleMute" [toString channel.val]
  | .selectTrack track => listed "SelectTrack" [toString track]
  | .nextTrack => "NextTrack"
  | .previousTrack => "PrevTrack"
  | .togglePause => "TogglePause"
  | .volume percent => listed "Volume" [toString percent.val]
  | .faster => "SpeedUp"
  | .slower => "SpeedDown"
  | .normalSpeed => "SpeedReset"
  | .restart => "Restart"
  | .quit => "Quit"

/-- How much faster or slower one command makes the playback. -/
def speedStep : Float32 := 0.1

/-- The deck after a command. A track that the album does not have changes nothing. -/
def apply (deck : Deck) : Command → Deck
  | .toggleMute channel => deck.toggleMute channel
  | .selectTrack track =>
    match deck.selectTrack track with
    | .ok selected => selected
    | .error _ => deck
  | .nextTrack => deck.nextTrack
  | .previousTrack => deck.previousTrack
  | .togglePause => deck.togglePause
  | .volume percent => deck.setVolume percent.part
  | .faster => deck.adjustSpeed speedStep
  | .slower => deck.adjustSpeed (-speedStep)
  | .normalSpeed => deck.setSpeed 1.0
  | .restart => deck.restart
  | .quit => deck

/-- Whether playback goes on after a command. -/
def continues : Command → Bool
  | .quit => false
  | _ => true

end Command
end Chiptune
