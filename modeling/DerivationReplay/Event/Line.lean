import DerivationReplay.Event.Statistics
import DerivationReplay.Text.Blank
import DerivationReplay.Text.Split

/-!
The line grammar. A line is a header that names the kind of event, then a clause: its number, its
text up to the last bracket that can open an annotation, the annotation with rule and parents, and
statistics. Lines of any other form are not events.
-/
namespace DerivationReplay.Event
open Text

def searchHeaders : List (String × EventKind) := [
  ("[SA] new: ", .new),
  ("[SA] passive: ", .passive),
  ("[SA] active: ", .active),
  ("[SA] forward reduce: ", .forwardReduction),
  ("[SA] backward reduce: ", .backwardReduction)]

def reductionHeaders : List (String × EventKind) := [
  ("forward reduce: ", .forwardReduction),
  ("forward reduce ", .forwardReduction),
  ("backward reduce: ", .backwardReduction),
  ("backward reduce ", .backwardReduction),
  ("replaced by ", .replacement),
  ("using ", .premise)]

def headed? (headers : List (String × EventKind)) (line : List Char) :
    Option (EventKind × List Char) :=
  headers.findSome? fun (header, kind) => (header.toList.isPrefixOf? line).map (kind, ·)

/-- The kind of event and the clause as written. A line that starts with a clause number is part
of preprocessing. -/
def header? (line : List Char) : Option (EventKind × List Char) :=
  if (line.head?.map isDigit).getD false then some (.preprocessing, line)
  else (headed? searchHeaders line).or (headed? reductionHeaders (trimStart line))

/-- Parents are separated by commas; empty items between commas are skipped. -/
def parents? (text : List Char) : Option (List ClauseId) :=
  ((text.splitOn ',').filter (!·.isEmpty)).mapM word64?

def withoutQuotes (text : List Char) : List Char := text.filter fun c => c ≠ '\'' && c ≠ '"'

/-- The clause text is the longest one that an annotation can follow. It ends at the last bracket
after a blank, but before the last closing bracket and within the first line. If what this bracket
opens is no annotation, because something other than digits and commas comes after its first digit,
then neither is what an earlier bracket opens, which has the same in it. -/
def ofClause? (kind : EventKind) (text : List Char) : Option Event := do
  let id ← word64? (text.takeWhile isDigit)
  let rest ← ['.', ' '].isPrefixOf? (text.dropWhile isDigit)
  let (body, tail) ← splitLast? [']'] rest
  let (clause, opened) ← splitLast? [' ', '['] (body.takeWhile (· ≠ '\n'))
  let inner := opened ++ body.dropWhile (· ≠ '\n')
  let parents ← parents? (inner.dropWhile (!isDigit ·))
  let statistics ← Statistics.ofTail? tail
  some {
    kind, id, parents, statistics
    clause := String.ofList (withoutQuotes (trimEnd clause))
    rule := String.ofList (trim (inner.takeWhile (!isDigit ·))) }

def ofLine? (line : List Char) : Option Event := do
  let (kind, clause) ← header? line
  ofClause? kind clause

end DerivationReplay.Event
