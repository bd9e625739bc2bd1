import Chiptune.Percent
import Chiptune.Storage.Basic
import Chiptune.Toml.Basic

/-!
# Settings

What is remembered from one session to the next: the volume. The settings file
is a TOML document; whatever is wrong with it, the standard settings take its
place.
-/
namespace Chiptune

/-- The volume unless another one is set. -/
def Settings.standardVolume : Percent := .cut 80

structure Settings where
  /-- The master volume in percent. -/
  volume : Percent := Settings.standardVolume
  deriving DecidableEq, Repr

namespace Settings

/-- A volume from a number of one byte, cut down to a hundred. -/
def volumeOf? (n : Int) : Option Percent :=
  if 0 ≤ n ∧ n < 0x100 then some (.cut n.toNat) else none

/-- The settings in the top table of a document. Other keys are ignored. -/
def ofEntries? (entries : Toml.Entries) : Option Settings :=
  match entries.lookup "volume".toList with
  | some (.value (.integer n)) => (volumeOf? n).map fun volume => { volume }
  | _ => none

def parse? (text : String) : Option Settings := (Toml.parse? text).bind ofEntries?

/-- The settings in a file, if it can be read and they are well formed. -/
def ofFile (file : Except FileError ByteArray) : Settings :=
  match file with
  | .error _ => {}
  | .ok content => ((String.fromUTF8? content).bind parse?).getD {}

/-- The settings as a document. -/
def text (settings : Settings) : String := "volume = " ++ toString settings.volume.val ++ "\n"

def content (settings : Settings) : ByteArray := settings.text.toUTF8

/-- Where the settings of a user are kept: below the directory for configurations if one is set,
else below the home directory, else in the working directory. -/
def path (configHome home : Option Path) : Path :=
  match configHome, home with
  | some directory, _ => (directory.join "chiptick").join "player.toml"
  | none, some directory => ((directory.join ".config").join "chiptick").join "player.toml"
  | none, none => "player.toml"

end Settings
end Chiptune
