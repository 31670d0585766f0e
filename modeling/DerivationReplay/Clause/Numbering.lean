import Std.Data.ExtTreeMap
import Std.Data.ExtTreeSet

/-! Clause numbers, points in time and counters: 64-bit words, ordered by value. -/
namespace DerivationReplay

abbrev ClauseId := UInt64

abbrev ClauseIds := Std.ExtTreeSet ClauseId compare

/-- The place of an event in its transcript; for activations, the replay step. -/
abbrev Time := UInt64

abbrev Statistics := Std.ExtTreeMap String UInt64 compare

def showIds (ids : List ClauseId) : String := ",".intercalate (ids.map toString)

end DerivationReplay
