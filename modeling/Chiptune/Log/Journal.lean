import Chiptune.Log.Event

/-!
# Journals

A journal collects the events that its threshold shows, in order.
-/
namespace Chiptune.Log

structure Journal where
  threshold : Threshold
  events : Array Event := #[]

namespace Journal

def shows (journal : Journal) (event : Event) : Bool := journal.threshold.shows event.level

/-- Adds the events that are shown. -/
def add (journal : Journal) (events : List Event) : Journal :=
  { journal with events := (events.filter journal.shows).foldl Array.push journal.events }

/-- What stands in the log. -/
def text (journal : Journal) : String := String.join (journal.events.toList.map Event.text)

end Journal
end Chiptune.Log
