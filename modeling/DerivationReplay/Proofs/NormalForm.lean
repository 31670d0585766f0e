import DerivationReplay.Proofs.Printing
import DerivationReplay.Reconstruction

/-!
The form in which text and rule are read. The rule has no digits and no blanks at its ends, and on a
line of its own nothing in it could open an annotation. The text has no quotes; as blanks at its end
are dropped before the quotes are, it ends with a blank only where quotes stood behind one. A clause
that is read in normal form is read from its own line again.
-/
namespace DerivationReplay
namespace Text

theorem trim_ends_visibly (text : List Char) : EndsVisibly (trim text) :=
  trim_end_last (trimStart text)

theorem trim_starts_visibly (text : List Char) : StartsVisibly (trim text) := by
  intro c start
  obtain ⟨rest, whole⟩ : trim text <+: trimStart text := trim_end_is_prefix (trimStart text)
  have first : (trimStart text).head? = some c := by
    rw [← whole, List.head?_append, start]
    rfl
  have visible := List.head?_dropWhile_not isBlank text
  rw [← trimStart, first] at visible
  simpa using visible

theorem trim_inside (text : List Char) : trim text <:+: text := by
  have start : trim text <+: trimStart text := trim_end_is_prefix (trimStart text)
  exact start.isInfix.trans (trim_start_is_suffix text).isInfix

theorem trim_end_cut (text : List Char) :
    ∃ after, text = trimEnd text ++ after ∧ ∀ c ∈ after, isBlank c := by
  refine ⟨(text.reverse.takeWhile isBlank).reverse, ?_, fun c mem => ?_⟩
  · rw [trimEnd, ← List.reverse_append, List.takeWhile_append_dropWhile, List.reverse_reverse]
  · exact List.mem_takeWhile_imp (List.mem_reverse.mp mem)

/-- The text ends in quotes that stand behind a blank; blanks after them do not count. -/
def HidesBlank (text : List Char) : Prop :=
  ∃ before blank quotes after, text = before ++ blank :: (quotes ++ after) ∧ isBlank blank ∧
    quotes ≠ [] ∧ (∀ c ∈ quotes, c = '\'' ∨ c = '"') ∧ ∀ c ∈ after, isBlank c

end Text

namespace Event
open Text

theorem mem_without_quotes {text : List Char} {c : Char} :
    c ∈ withoutQuotes text ↔ c ∈ text ∧ c ≠ '\'' ∧ c ≠ '"' := by
  simp [withoutQuotes]

theorem without_quotes_ends_visibly {text : List Char} (shown : ¬ HidesBlank text) :
    EndsVisibly (withoutQuotes (trimEnd text)) := by
  intro c last
  rw [withoutQuotes, List.getLast?_filter, Option.mem_def, List.find?_eq_some_iff_append] at last
  obtain ⟨_, quotes, before, back, all⟩ := last
  have cut : trimEnd text = before.reverse ++ c :: quotes.reverse := by
    rw [← List.reverse_reverse (trimEnd text), back]
    simp
  obtain ⟨after, whole, blanks⟩ := trim_end_cut text
  by_contra blank
  rw [Bool.not_eq_false] at blank
  refine shown ⟨before.reverse, c, quotes.reverse, after, whole.trans (by simp [cut]), blank, ?_,
    fun d mem => ?_, blanks⟩
  · intro none
    have visible := trim_end_last text c (by simp [cut, none])
    simp [visible] at blank
  · have quote := all d (List.mem_reverse.mp mem)
    simpa [or_iff_not_imp_left] using quote

theorem Parts.rule_unopened {parts : Parts} (last : parts.EndsLast) (one_line : '\n' ∉ parts.body) :
    ¬ [' ', '['] <:+: parts.rule := by
  rintro ⟨before, after, rule⟩
  have whole : parts.body.takeWhile (· ≠ '\n') = parts.body := by
    refine List.takeWhile_eq_self_iff.mpr fun c mem => decide_eq_true ?_
    rintro rfl
    exact one_line mem
  obtain ⟨⟨clause, opened⟩, found, ends⟩ := Option.map_eq_some_iff.mp last
  obtain rfl : clause = parts.clause := ends
  rw [whole] at found
  -- With the rule on the first line, its bracket would be a later place for the cut.
  have later : parts.body = parts.clause ++ [' ', '['] ++ before ++ [' ', '['] ++
      (after ++ parts.parents) := by
    simp [body, ← rule]
  have bound := split_last_is_last _ _ _ _ (by simp) found _ _ later
  simp only [List.length_append, List.length_cons] at bound
  omega

/-- What is sure of text and rule when an event is read from a line. -/
structure ReadForm (line : List Char) (event : Event) : Prop where
  unquoted : ∀ c ∈ event.clause.toList, c ≠ '\'' ∧ c ≠ '"'
  one_line : '\n' ∉ event.clause.toList
  text_end : ∀ split : Split line, split.IsLongest → ¬ HidesBlank split.parts.clause →
    EndsVisibly event.clause.toList
  undigited : ∀ c ∈ event.rule.toList, isDigit c = false
  rule_start : StartsVisibly event.rule.toList
  rule_end : EndsVisibly event.rule.toList
  unopened : '\n' ∉ line → ¬ [' ', '['] <:+: event.rule.toList

section Read
variable {line : List Char} {event : Event} (read : ofLine? line = some event)
include read

theorem read_form : ReadForm line event := by
  obtain ⟨split, longest, tells⟩ := (line_read_iff line event).mp read
  have text : event.clause.toList = withoutQuotes (trimEnd split.parts.clause) := by
    rw [tells.clause, String.toList_ofList]
  have rule : event.rule.toList = trim split.parts.rule := by
    rw [tells.rule, String.toList_ofList]
  constructor
  · intro c mem
    rw [text] at mem
    exact (mem_without_quotes.mp mem).2
  · intro mem
    rw [text] at mem
    have written := trim_end_is_prefix split.parts.clause
    exact split.formed.clause (written.subset (mem_without_quotes.mp mem).1)
  · intro other other_longest shown
    obtain rfl := Split.longest_unique longest other_longest
    rw [text]
    exact without_quotes_ends_visibly shown
  · intro c mem
    rw [rule] at mem
    exact split.formed.rule c ((trim_inside _).subset mem)
  · rw [rule]
    exact trim_starts_visibly _
  · rw [rule]
    exact trim_ends_visibly _
  · intro one_line opened
    rw [rule] at opened
    refine Parts.rule_unopened (Split.ends_last_of_longest longest) (fun mem => one_line ?_)
      (opened.trans (trim_inside _))
    rw [split.whole]
    simp [Parts.text, mem]

/-- Text and rule are as far in normal form as `ReadForm` says. Where the text ends visibly and the
rule could not open an annotation, they are read from the line of their clause again. -/
theorem read_again : ReadForm line event ∧
    (EndsVisibly event.clause.toList → ¬ [' ', '['] <:+: event.rule.toList →
      ∀ input, ofLine? (Reconstruction.declaration event input).line.toList =
        some { event with kind := .preprocessing, statistics := ∅ }) := by
  have form := read_form read
  refine ⟨form, fun ends unopened input => ?_⟩
  have normal : Normal event.clause.toList event.rule.toList :=
    ⟨form.unquoted, ends, form.undigited, form.rule_start, form.rule_end, unopened⟩
  rw [Clause.line_eq_parts]
  exact Clause.parts_read form.one_line normal

end Read

theorem annotated_line_again : ∃ event, ofLine? annotatedLine = some event ∧
    ReadForm annotatedLine event ∧ '\n' ∉ annotatedLine ∧ EndsVisibly event.clause.toList ∧
    ¬ [' ', '['] <:+: event.rule.toList ∧
    ofLine? (Reconstruction.declaration event false).line.toList =
      some ⟨.preprocessing, 7, "p [q 1] | r", "resolution", [3, 5], ∅⟩ := by
  let event : Event :=
    ⟨.new, 7, "p [q 1] | r", "resolution", [3, 5], .ofList [("a", 0), ("w", 2)] compare⟩
  have read : ofLine? annotatedLine = some event := by decide +kernel
  have one_line : '\n' ∉ annotatedLine := by decide +kernel
  have ends : EndsVisibly event.clause.toList := by decide +kernel
  have unopened : ¬ [' ', '['] <:+: event.rule.toList :=
    (unopened_iff _).mp (by decide +kernel)
  obtain ⟨form, again⟩ := read_again read
  exact ⟨event, read, form, one_line, ends, unopened, again ends unopened false⟩

/-- A quote behind a blank leaves the blank at the end of the text. A line feed lets a bracket into
the rule that opens an annotation once the line feed is trimmed away. -/
theorem read_not_normal :
    (∃ event again, ofLine? "1. p ' [input]".toList = some event ∧
      ¬ EndsVisibly event.clause.toList ∧
      ofLine? (Reconstruction.declaration event true).line.toList = some again ∧
      again.clause ≠ event.clause) ∧
    ∃ event again, ofLine? "1. p [\nx [b]".toList = some event ∧
      [' ', '['] <:+: event.rule.toList ∧
      ofLine? (Reconstruction.declaration event true).line.toList = some again ∧
      again.clause ≠ event.clause ∧ again.rule ≠ event.rule := by
  constructor
  · refine ⟨⟨.preprocessing, 1, "p ", "input", [], ∅⟩, ⟨.preprocessing, 1, "p", "input", [], ∅⟩, ?_⟩
    decide +kernel
  · refine ⟨⟨.preprocessing, 1, "p", "x [b", [], ∅⟩, ⟨.preprocessing, 1, "p [x", "b", [], ∅⟩,
      by decide +kernel, ⟨['x'], ['b'], by decide +kernel⟩, ?_⟩
    decide +kernel

end Event
end DerivationReplay
