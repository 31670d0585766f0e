import DerivationReplay.Event.Line

/-! The events of a transcript, in order, up to the line that announces the refutation. -/
namespace DerivationReplay.Event
open Text

/-- The marker starts the first line that no longer belongs to the run; an empty one marks none. -/
def marks (marker line : List Char) : Bool := !marker.isEmpty && marker.isPrefixOf line

def ofText (marker : String) (text : String) : List Event :=
  ((lines text.toList).takeWhile (!marks marker.toList ·)).filterMap ofLine?

end DerivationReplay.Event
