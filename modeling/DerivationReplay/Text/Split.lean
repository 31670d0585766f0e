/-! Cutting a text at the last occurrence of a pattern, and into lines. -/
namespace DerivationReplay.Text

/-- The parts before and after the last occurrence of a pattern that is not empty. -/
def splitLast? (pattern : List Char) : List Char → Option (List Char × List Char)
  | [] => none
  | c :: rest =>
    match splitLast? pattern rest with
    | some (before, after) => some (c :: before, after)
    | none => (pattern.isPrefixOf? (c :: rest)).map ([], ·)

/-- A line feed ends a line; one carriage return before it belongs to the line's end. -/
def withoutReturn (line : List Char) : List Char :=
  if line.getLast? = some '\r' then line.dropLast else line

/-- The lines of a text; text after the last line feed is a line of its own unless empty. -/
def lines (text : List Char) : List (List Char) :=
  let pieces := text.splitOn '\n'
  pieces.dropLast.map withoutReturn ++ (pieces.getLast?.filter (· ≠ [])).toList

end DerivationReplay.Text
