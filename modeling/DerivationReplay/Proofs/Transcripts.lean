import DerivationReplay.Event.Text
import Mathlib.Data.List.Basic
import Mathlib.Data.List.TakeWhile

/-!
Transcripts that are read piece by piece. A piece that ends with its last line leaves nothing open,
so the lines of the pieces are those of the whole, and so are the events, until one of the pieces
announces the refutation: what follows it is not read.
-/
namespace DerivationReplay
namespace Text

def EndsLine (text : List Char) : Prop := text = [] ∨ text.getLast? = some '\n'

instance (text : List Char) : Decidable (EndsLine text) :=
  inferInstanceAs (Decidable (text = [] ∨ text.getLast? = some '\n'))

theorem lines_nil : lines [] = [] := rfl

theorem lines_around_feed (before after : List Char) :
    lines (before ++ '\n' :: after) = (before.splitOn '\n').map withoutReturn ++ lines after := by
  have some : after.splitOn '\n' ≠ [] := List.splitOn_ne_nil '\n' after
  -- The text before the feed is cut into closed lines only; an open one can be left behind it.
  simp only [lines]
  rw [List.splitOn_append_cons_self, List.dropLast_append_of_ne_nil some, List.map_append,
    List.getLast?_append_of_ne_nil _ some, List.append_assoc]

theorem lines_append {first : List Char} (ends : EndsLine first) (second : List Char) :
    lines (first ++ second) = lines first ++ lines second := by
  rcases ends with rfl | last
  · rfl
  · obtain ⟨before, rfl⟩ := List.getLast?_eq_some_iff.mp last
    rw [List.append_assoc, List.singleton_append, lines_around_feed, lines_around_feed, lines_nil,
      List.append_nil]

end Text

namespace Event
open Text

/-- One of the lines starts with the marker. An empty marker announces nothing. -/
def Announces (text marker : String) : Prop :=
  marker ≠ "" ∧ ∃ line ∈ lines text.toList, marker.toList <+: line

instance (text marker : String) : Decidable (Announces text marker) :=
  inferInstanceAs (Decidable (marker ≠ "" ∧ ∃ line ∈ lines text.toList, marker.toList <+: line))

theorem marks_iff (marker : String) (line : List Char) :
    marks marker.toList line = true ↔ marker ≠ "" ∧ marker.toList <+: line := by
  simp [marks]

def runLines (marker : String) (text : List Char) : List (List Char) :=
  (lines text).takeWhile (!marks marker.toList ·)

theorem announces_iff (text marker : String) :
    Announces text marker ↔ ∃ line ∈ lines text.toList, marks marker.toList line = true := by
  simp only [Announces, marks_iff]
  constructor
  · rintro ⟨nonempty, line, listed, start⟩
    exact ⟨line, listed, nonempty, start⟩
  · rintro ⟨line, listed, nonempty, start⟩
    exact ⟨nonempty, line, listed, start⟩

section Append
variable {marker first second : String} (ends : EndsLine first.toList)
include ends

theorem run_lines_of_announced (announced : Announces first marker) :
    runLines marker (first.toList ++ second.toList) = runLines marker first.toList := by
  obtain ⟨line, listed, marked⟩ := (announces_iff first marker).mp announced
  rw [runLines, lines_append ends, List.takeWhile_append, if_neg]
  · rfl
  · intro whole
    have all := List.takeWhile_eq_self_iff.mp ((List.takeWhile_prefix _).eq_of_length whole)
    have passed := all line listed
    simp [marked] at passed

theorem run_lines_of_unannounced (silent : ¬ Announces first marker) :
    runLines marker (first.toList ++ second.toList) =
      runLines marker first.toList ++ runLines marker second.toList := by
  have all : ∀ line ∈ lines first.toList, (!marks marker.toList line) = true := by
    intro line listed
    rw [Bool.not_eq_true', ← Bool.not_eq_true]
    exact fun marked => silent ((announces_iff first marker).mpr ⟨line, listed, marked⟩)
  rw [runLines, lines_append ends, List.takeWhile_append_of_pos all, runLines,
    List.takeWhile_eq_self_iff.mpr all]
  rfl

/-- Of two pieces of a transcript, the second is read in the same way as on its own, unless the
first announces the refutation, and then it is not read at all. -/
theorem of_text_append :
    (Announces first marker → ofText marker (first ++ second) = ofText marker first) ∧
    (¬ Announces first marker →
      ofText marker (first ++ second) = ofText marker first ++ ofText marker second) := by
  constructor
  · intro announced
    rw [ofText, String.toList_append]
    exact congrArg _ (run_lines_of_announced ends announced)
  · intro silent
    rw [ofText, String.toList_append]
    refine (congrArg _ (run_lines_of_unannounced ends silent)).trans ?_
    exact List.filterMap_append

end Append

def declarations : String := "1. p [input]\r\n\n% q is next\n[SA] new: 2. q [cnf 1]\n"

def refutation : String := "[SA] new: 3. r [cnf 2]\r\n% Refutation\n4. s [cnf 3]\n"

theorem pieces_read :
    (EndsLine declarations.toList ∧ ¬ Announces declarations "% Ref" ∧
      ofText "% Ref" (declarations ++ refutation) =
        ofText "% Ref" declarations ++ ofText "% Ref" refutation) ∧
    (EndsLine refutation.toList ∧ Announces refutation "% Ref" ∧
      ofText "% Ref" (refutation ++ declarations) = ofText "% Ref" refutation) ∧
    ofText "% Ref" declarations =
      [⟨.preprocessing, 1, "p", "input", [], ∅⟩, ⟨.new, 2, "q", "cnf", [1], ∅⟩] ∧
    ofText "% Ref" refutation = [⟨.new, 3, "r", "cnf", [2], ∅⟩] := by
  have ends : EndsLine declarations.toList := by decide +kernel
  have silent : ¬ Announces declarations "% Ref" := by decide +kernel
  have refutation_ends : EndsLine refutation.toList := by decide +kernel
  have announced : Announces refutation "% Ref" := by decide +kernel
  refine ⟨⟨ends, silent, (of_text_append ends).2 silent⟩, ⟨refutation_ends, announced,
    (of_text_append refutation_ends).1 announced⟩, ?_, ?_⟩
  · decide +kernel
  · decide +kernel

end Event
end DerivationReplay
