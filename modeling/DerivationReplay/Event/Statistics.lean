import DerivationReplay.Event
import DerivationReplay.Text.Decimal
import DerivationReplay.Text.Digit
import DerivationReplay.Text.WordCharacter

/-!
The statistics block at the end of a line: counters written as key and value, joined by a colon,
separated by commas and enclosed in braces. A key is a small letter and word characters.
-/
namespace DerivationReplay.Statistics
open Text

def isKey : List Char → Bool
  | [] => false
  | c :: rest => 'a' ≤ c && c ≤ 'z' && rest.all isWordCharacter

def entry? (text : List Char) : Option (String × UInt64) := do
  let key := text.takeWhile (· ≠ ':')
  let value ← word64? (text.dropWhile (· ≠ ':')).tail
  if isKey key then some (String.ofList key, value) else none

/-- The inside of a block. Of repeated keys the last one counts. -/
def ofEntries? (entries : List Char) : Option Statistics :=
  ((entries.splitOn ',').mapM entry?).map (Std.ExtTreeMap.ofList · compare)

def ofTail? (tail : List Char) : Option Statistics :=
  if tail.isEmpty then some ∅
  else do
    let opened ← [' ', '{'].isPrefixOf? tail
    if opened.getLast? = some '}' then ofEntries? opened.dropLast else none

end DerivationReplay.Statistics
