import DerivationReplay.Clause
import DerivationReplay.Proofs.Grammar

/-!
Printed clauses. A clause is printed as a line of preprocessing; where text and rule are in normal
form, reading the line gives number, text, rule and parents back, whatever brackets, annotations and
counters the text itself seems to hold.
-/
namespace DerivationReplay
namespace Text

def StartsVisibly (text : List Char) : Prop := ∀ c ∈ text.head?, isBlank c = false

def EndsVisibly (text : List Char) : Prop := ∀ c ∈ text.getLast?, isBlank c = false

theorem none_blank_iff (edge : Option Char) :
    edge.all (!isBlank ·) = true ↔ ∀ c ∈ edge, isBlank c = false := by
  cases edge <;> simp

instance (text : List Char) : Decidable (StartsVisibly text) :=
  decidable_of_iff _ (none_blank_iff text.head?)

instance (text : List Char) : Decidable (EndsVisibly text) :=
  decidable_of_iff _ (none_blank_iff text.getLast?)

theorem trim_end_visible {text : List Char} (ends : EndsVisibly text) : trimEnd text = text := by
  cases back : text.reverse with
  | nil => rw [trimEnd, back, List.reverse_eq_nil_iff.mp back]; rfl
  | cons c rest =>
    have last : text.getLast? = some c := by rw [← List.head?_reverse, back]; rfl
    have visible := ends c last
    rw [trimEnd, back, List.dropWhile_cons_of_neg (by simp [visible]), ← back,
      List.reverse_reverse]

theorem trim_end_padded (text : List Char) {gap : List Char} (blank : ∀ c ∈ gap, isBlank c) :
    trimEnd (text ++ gap) = trimEnd text := by
  rw [trimEnd, List.reverse_append, List.dropWhile_append_of_pos (by simpa using blank), trimEnd]

theorem trim_padded {text gap : List Char} (starts : StartsVisibly text) (ends : EndsVisibly text)
    (blank : ∀ c ∈ gap, isBlank c) : trim (text ++ gap) = text := by
  cases text with
  | nil =>
    have all_blank : trimStart gap = [] := List.dropWhile_eq_nil_iff.mpr blank
    rw [trim, List.nil_append, all_blank]
    rfl
  | cons c rest =>
    have visible := starts c rfl
    have whole : trimStart (c :: rest ++ gap) = c :: rest ++ gap :=
      List.dropWhile_cons_of_neg (by simp [visible])
    rw [trim, whole, trim_end_padded _ blank, trim_end_visible ends]

theorem opening_before {text more : List Char} (plain : '[' ∉ more)
    (occurs : [' ', '['] <:+: text ++ more) : [' ', '['] <:+: text := by
  rcases List.infix_append_iff.mp occurs with inside | later | ⟨start, rest, whole, ends, begins⟩
  · exact inside
  · exact absurd (later.subset (by simp)) plain
  -- An occurrence across the border brings its last character, the bracket, into the text behind.
  · rcases List.eq_nil_or_concat rest with rfl | ⟨rest, c, rfl⟩
    · rw [whole, List.append_nil]
      exact ends.isInfix
    · rw [List.concat_eq_append, ← List.append_assoc] at whole
      obtain rfl : '[' = c := by simpa using congrArg List.getLast? whole
      exact absurd (begins.subset (by simp)) plain

theorem split_at_opening {before after : List Char} (clear : ¬ [' ', '['] <:+: after) :
    splitLast? [' ', '['] (before ++ [' ', '['] ++ after) = some (before, after) := by
  refine split_last_eq (by simp) fun other rest occurs => ?_
  -- An occurrence behind this one stands in the rest, because no two of them overlap.
  rw [List.append_assoc, List.append_assoc, List.append_eq_append_iff] at occurs
  rcases occurs with ⟨middle, rfl, same⟩ | ⟨middle, rfl, _⟩
  · match middle with
    | [] => simp
    | [_] => simp at same
    | _ :: _ :: middle =>
      simp only [List.cons_append, List.cons.injEq, List.nil_append] at same
      exact absurd ⟨middle, rest, by simp [same.2.2]⟩ clear
  · simp

theorem unopened_iff (text : List Char) :
    (splitLast? [' ', '['] text).isNone = true ↔ ¬ [' ', '['] <:+: text := by
  rw [Option.isNone_iff_eq_none]
  constructor
  · rintro none ⟨before, after, rfl⟩
    have found := split_last_of_occurrence [' ', '['] before after (by simp)
    rw [none] at found
    cases found
  · intro unopened
    refine Option.eq_none_iff_forall_ne_some.mpr fun (before, after) found => ?_
    exact unopened ⟨before, after, (split_last_append _ _ _ _ found).symm⟩

end Text

namespace Event
open Text

/-- Text and rule of a clause as they are read: without quotes, digits in the rule and blanks at
the ends, and with nothing in the rule that could open an annotation. -/
structure Normal (text rule : List Char) : Prop where
  unquoted : ∀ c ∈ text, c ≠ '\'' ∧ c ≠ '"'
  text_end : EndsVisibly text
  undigited : ∀ c ∈ rule, isDigit c = false
  rule_start : StartsVisibly rule
  rule_end : EndsVisibly rule
  unopened : ¬ [' ', '['] <:+: rule

instance (text rule : List Char) : Decidable (Normal text rule) :=
  decidable_of_iff ((text.all fun c => c ≠ '\'' ∧ c ≠ '"') = true ∧ EndsVisibly text ∧
      (rule.all (!isDigit ·)) = true ∧ StartsVisibly rule ∧ EndsVisibly rule ∧
      (splitLast? [' ', '['] rule).isNone = true) <| by
    rw [unopened_iff]
    constructor
    · rintro ⟨unquoted, text_end, undigited, rule_start, rule_end, unopened⟩
      exact ⟨by simpa using unquoted, text_end, by simpa using undigited, rule_start, rule_end,
        unopened⟩
    · rintro ⟨unquoted, text_end, undigited, rule_start, rule_end, unopened⟩
      exact ⟨by simpa using unquoted, text_end, by simpa using undigited, rule_start, rule_end,
        unopened⟩

theorem plain_line_read {parts : Parts} {event : Event} (formed : parts.Formed)
    (last : parts.EndsLast) (tells : parts.Tells .preprocessing event) :
    ofLine? parts.text = some event := by
  let split : Split parts.text := ⟨.plain, .preprocessing, [], parts, .plain, formed, rfl⟩
  exact (line_read_iff parts.text event).mpr ⟨split, split.longest_of_ends_last last, tells⟩

end Event

namespace Clause
open Text Event

def gap (clause : Clause) : List Char := if clause.parents.isEmpty then [] else [' ']

def parts (clause : Clause) : Parts where
  number := (toString clause.id).toList
  clause := clause.text.toList
  rule := clause.rule.toList ++ clause.gap
  parents := (showIds clause.parents).toList
  counters := []

theorem show_ids_list (ids : List ClauseId) :
    (showIds ids).toList = [','].intercalate (ids.map fun id => (toString id).toList) := by
  rw [showIds, String.toList_intercalate, List.map_map]
  rfl

theorem show_ids_nil : (showIds []).toList = [] := by rw [show_ids_list]; rfl

theorem line_eq_parts (clause : Clause) : clause.line.toList = clause.parts.text := by
  simp only [line, parts, gap, Parts.text, Parts.body, Statistics.written]
  cases clause.parents with
  | nil => simp [show_ids_nil]
  | cons parent parents => simp

theorem number_digits (id : ClauseId) :
    (toString id).toList ≠ [] ∧ ∀ c ∈ (toString id).toList, isDigit c :=
  word64_digits (word64_of_numeral id)

theorem show_ids_characters (ids : List ClauseId) :
    ∀ c ∈ (showIds ids).toList, isDigit c ∨ c = ',' := by
  intro c mem
  rw [show_ids_list] at mem
  rcases mem_intercalate mem with same | ⟨item, listed, inside⟩
  · exact .inr same
  · obtain ⟨id, _, rfl⟩ := List.mem_map.mp listed
    exact .inl ((number_digits id).2 c inside)

theorem show_ids_start (ids : List ClauseId) : ∀ c ∈ (showIds ids).toList.head?, isDigit c := by
  cases ids with
  | nil => simp [show_ids_nil]
  | cons id ids =>
    obtain ⟨some, digits⟩ := number_digits id
    obtain ⟨first, rest, number⟩ := List.exists_cons_of_ne_nil some
    have starts : (showIds (id :: ids)).toList.head? = .some first := by
      rw [show_ids_list, List.map_cons, number]
      cases ids <;> simp
    intro c start
    rw [starts] at start
    cases start
    exact digits first (by simp [number])

theorem show_ids_items (ids : List ClauseId) :
    (((showIds ids).toList.splitOn ',').filter (!·.isEmpty)) =
      ids.map fun id => (toString id).toList := by
  have comma : isDigit ',' = false := by decide
  cases ids with
  | nil => rw [show_ids_nil]; rfl
  | cons id ids =>
    rw [show_ids_list, List.splitOn_intercalate ',' _ (by simp)]
    · refine List.filter_eq_self.mpr fun item listed => ?_
      obtain ⟨other, _, rfl⟩ := List.mem_map.mp listed
      simpa using (number_digits other).1
    · intro item listed mem
      obtain ⟨other, _, rfl⟩ := List.mem_map.mp listed
      exact absurd ((number_digits other).2 ',' mem) (by simp [comma])

theorem gap_blank (clause : Clause) : ∀ c ∈ clause.gap, c = ' ' := by
  unfold gap
  cases clause.parents <;> simp

section Printed
variable {clause : Clause} (one_line : '\n' ∉ clause.text.toList)
  (normal : Normal clause.text.toList clause.rule.toList)
include normal

include one_line in
theorem parts_formed : clause.parts.Formed where
  number := number_digits clause.id
  clause := one_line
  rule := by
    intro c mem
    rcases List.mem_append.mp mem with mem | mem
    · exact normal.undigited c mem
    · rw [gap_blank clause c mem]
      decide
  parents := show_ids_characters clause.parents
  parents_start := show_ids_start clause.parents
  counters := by simp [parts]

include one_line in
theorem parts_end_last : clause.parts.EndsLast := by
  have plain : '[' ∉ clause.gap ++ clause.parts.parents := by
    intro mem
    rcases List.mem_append.mp mem with mem | mem
    · cases gap_blank clause '[' mem
    · rcases show_ids_characters clause.parents '[' mem with digit | comma
      · revert digit
        decide
      · cases comma
  -- Neither the rule nor what is printed after it can be taken for the end of the text.
  have clear : ¬ [' ', '['] <:+:
      (clause.parts.rule ++ clause.parts.parents).takeWhile (· ≠ '\n') := by
    intro occurs
    have inside := occurs.trans (List.takeWhile_prefix _).isInfix
    rw [parts, List.append_assoc] at inside
    exact normal.unopened (opening_before plain inside)
  rw [Parts.EndsLast, Parts.first_line (parts_formed one_line normal), split_at_opening clear]
  rfl

theorem parts_tell : clause.parts.Tells .preprocessing
    { kind := .preprocessing, id := clause.id, clause := clause.text, rule := clause.rule,
      parents := clause.parents, statistics := ∅ } where
  kind := rfl
  id := word64_of_numeral clause.id
  clause := by
    have kept : withoutQuotes clause.text.toList = clause.text.toList :=
      List.filter_eq_self.mpr fun c mem => by simpa using normal.unquoted c mem
    rw [parts, trim_end_visible normal.text_end, kept, String.ofList_toList]
  rule := by
    have blank : ∀ c ∈ clause.gap, isBlank c := fun c mem => by
      rw [gap_blank clause c mem]
      decide
    rw [parts, trim_padded normal.rule_start normal.rule_end blank, String.ofList_toList]
  parents := by
    rw [parts, show_ids_items, List.forall₂_map_left_iff]
    exact List.forall₂_same.mpr fun id _ => word64_of_numeral id
  statistics := ⟨[], .nil, rfl⟩

include one_line in
theorem parts_read : ofLine? clause.parts.text = some
    { kind := .preprocessing, id := clause.id, clause := clause.text, rule := clause.rule,
      parents := clause.parents, statistics := ∅ } :=
  plain_line_read (parts_formed one_line normal) (parts_end_last one_line normal)
    (parts_tell normal)

end Printed

/-- A clause whose text has one line and which is in normal form is read back from its line. -/
theorem printed_line_read (clause : Clause) (one_line : '\n' ∉ clause.text.toList)
    (normal : Normal clause.text.toList clause.rule.toList) :
    ofLine? clause.line.toList = some
      { kind := .preprocessing, id := clause.id, clause := clause.text, rule := clause.rule,
        parents := clause.parents, statistics := ∅ } := by
  rw [line_eq_parts]
  exact parts_read one_line normal

def misleading : Clause where
  id := 7
  text := "q [cnf 1,2] {a:3}. [SA] new: 5. r(x) [] | 8. s [t"
  rule := "a], {w:}\t[b]["
  parents := [3, 18446744073709551615, 3]
  life := { active := some 4 }

def wordless : Clause := { id := 0, text := "", rule := "" }

theorem misleading_lines_read :
    ('\n' ∉ misleading.text.toList ∧ Normal misleading.text.toList misleading.rule.toList ∧
      ofLine? misleading.line.toList = some
        { kind := .preprocessing, id := 7, clause := misleading.text, rule := misleading.rule,
          parents := [3, 18446744073709551615, 3], statistics := ∅ }) ∧
    '\n' ∉ wordless.text.toList ∧ Normal wordless.text.toList wordless.rule.toList ∧
      ofLine? wordless.line.toList = some
        { kind := .preprocessing, id := 0, clause := "", rule := "", parents := [],
          statistics := ∅ } := by
  have one_line : '\n' ∉ misleading.text.toList := by decide +kernel
  have normal : Normal misleading.text.toList misleading.rule.toList := by decide +kernel
  have wordless_line : '\n' ∉ wordless.text.toList := by decide +kernel
  have wordless_normal : Normal wordless.text.toList wordless.rule.toList := by decide +kernel
  exact ⟨⟨one_line, normal, printed_line_read misleading one_line normal⟩, wordless_line,
    wordless_normal, printed_line_read wordless wordless_line wordless_normal⟩

end Clause
end DerivationReplay
