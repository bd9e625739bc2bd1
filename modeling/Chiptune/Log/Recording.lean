import Chiptune.Log.Deck
import Chiptune.Recording.Basic

/-!
# Events of recording

A recording is watched block by block.
-/
namespace Chiptune.Deck

open Log (Journal)

/-- Watches a deck while it plays `missing` more frames. -/
def watchRecording (missing : Nat) (deck : Deck) (journal : Journal) : Journal :=
  if missing = 0 ∨ deck.paused then journal
  else
    let journal := deck.watchAdvance journal
    match deck.playTick with
    | (none, _) => journal
    | (some block, deck) =>
      if block.size = 0 then journal else watchRecording (missing - block.size) deck journal
termination_by missing

end Chiptune.Deck
