import DerivationReplay.Proofs.Counters
import DerivationReplay.Proofs.Headers

/-!
The grammar of lines. A line may be split into its parts in several ways, since clauses may hold
brackets and annotations themselves; it is read by the split with the longest clause, and read at
all just if the numbers in this split fit in 64 bits.
-/
namespace DerivationReplay
namespace Text

theorem split_last_append (pattern text before after : List Char)
    (found : splitLast? pattern text = some (before, after)) :
    text = before ++ pattern ++ after := by
  induction text generalizing before with
  | nil => cases found
  | cons c rest ih =>
    simp only [splitLast?] at found
    split at found
    · cases found
      simp [ih _ ‹_›]
    · obtain ⟨tail, start, eq⟩ := Option.map_eq_some_iff.mp found
      cases eq
      simpa using (List.append_eq_of_isPrefixOf?_eq_some start).symm

theorem split_last_of_occurrence (pattern before after : List Char) (nonempty : pattern ≠ []) :
    (splitLast? pattern (before ++ pattern ++ after)).isSome := by
  induction before with
  | nil =>
    cases pattern with
    | nil => exact absurd rfl nonempty
    | cons p pattern =>
      have start : (p :: pattern).isPrefixOf? (p :: pattern ++ after) = some after :=
        List.isPrefixOf?_eq_some_iff_append_eq.mpr rfl
      simp only [List.nil_append, List.cons_append, splitLast?] at start ⊢
      split
      · rfl
      · rw [start]; rfl
  | cons c before ih =>
    simp only [List.cons_append, splitLast?]
    split
    · rfl
    · exact absurd ih (by simp_all)

theorem split_last_is_last (pattern text before after : List Char) (nonempty : pattern ≠ [])
    (found : splitLast? pattern text = some (before, after)) (other rest : List Char)
    (occurs : text = other ++ pattern ++ rest) : other.length ≤ before.length := by
  induction text generalizing before other with
  | nil => cases found
  | cons c text ih =>
    cases other with
    | nil => exact Nat.zero_le _
    | cons o other =>
      simp only [List.cons_append, List.cons.injEq] at occurs
      simp only [splitLast?] at found
      split at found
      · cases found
        exact Nat.succ_le_succ (ih _ ‹_› other occurs.2)
      · have later := split_last_of_occurrence pattern other rest nonempty
        rw [← occurs.2] at later
        simp_all

theorem split_last_eq {pattern before after : List Char} (nonempty : pattern ≠ [])
    (last : ∀ other rest, before ++ pattern ++ after = other ++ pattern ++ rest →
      other.length ≤ before.length) :
    splitLast? pattern (before ++ pattern ++ after) = some (before, after) := by
  obtain ⟨⟨found, rest⟩, split⟩ := Option.isSome_iff_exists.mp
    (split_last_of_occurrence pattern before after nonempty)
  have occurs := split_last_append _ _ _ _ split
  have low := last found rest occurs
  have high := split_last_is_last _ _ _ _ nonempty split before after rfl
  obtain ⟨same, same_rest⟩ := List.append_inj occurs (by simp; omega)
  rw [split, (List.append_inj_left' same rfl), same_rest]

theorem split_last_char {c : Char} {before after : List Char} (apart : c ∉ after) :
    splitLast? [c] (before ++ [c] ++ after) = some (before, after) := by
  refine split_last_eq (by simp) fun other rest occurs => ?_
  by_contra later
  have here : (other ++ [c] ++ rest)[other.length]? = some c := by simp
  rw [← occurs, List.getElem?_append_right (by simp; omega)] at here
  exact apart (List.mem_of_getElem? here)

theorem suffix_of_longer {pattern before other after rest : List Char}
    (same : before ++ pattern ++ after = other ++ pattern ++ rest)
    (longer : other.length ≤ before.length) : after <:+ rest := by
  have lengths := congrArg List.length same
  simp only [List.length_append] at lengths
  exact List.suffix_of_suffix_length_le ⟨_, same⟩ ⟨_, rfl⟩ (by omega)

theorem mem_drop_while_of_suffix {text part : List Char} (suffix : part <:+ text)
    (skip : Char → Bool) (c : Char) (mem : c ∈ part.dropWhile skip) : c ∈ text.dropWhile skip := by
  obtain ⟨before, rfl⟩ := suffix
  rw [List.dropWhile_append]
  split
  · exact mem
  · exact List.mem_append_right _ (List.dropWhile_subset _ mem)

end Text

namespace Event
open Text

structure Parts where
  number : List Char
  clause : List Char
  rule : List Char
  parents : List Char
  counters : List Statistics.Counter

namespace Parts

def body (parts : Parts) : List Char :=
  parts.clause ++ [' ', '['] ++ (parts.rule ++ parts.parents)

def text (parts : Parts) : List Char :=
  parts.number ++ (['.', ' '] ++ (parts.body ++ [']'] ++ Statistics.written parts.counters))

structure Formed (parts : Parts) : Prop where
  number : parts.number ≠ [] ∧ ∀ c ∈ parts.number, isDigit c
  clause : '\n' ∉ parts.clause
  rule : ∀ c ∈ parts.rule, isDigit c = false
  parents : ∀ c ∈ parts.parents, isDigit c ∨ c = ','
  parents_start : ∀ c ∈ parts.parents.head?, isDigit c
  counters : ∀ counter ∈ parts.counters, counter.Formed

/-- The event that the parts tell of. Of repeated keys the last one counts. -/
structure Tells (parts : Parts) (kind : EventKind) (event : Event) : Prop where
  kind : event.kind = kind
  id : word64? parts.number = some event.id
  clause : event.clause = String.ofList (withoutQuotes (trimEnd parts.clause))
  rule : event.rule = String.ofList (trim parts.rule)
  parents : List.Forall₂ (fun item id => word64? item = some id)
    ((parts.parents.splitOn ',').filter (!·.isEmpty)) event.parents
  statistics : ∃ entries, List.Forall₂ Statistics.Counter.Reads parts.counters entries ∧
    event.statistics = .ofList entries compare

structure Fits (parts : Parts) : Prop where
  number : (word64? parts.number).isSome
  parents : ∀ item ∈ parts.parents.splitOn ',', item ≠ [] → (word64? item).isSome
  counters : ∀ counter ∈ parts.counters, (word64? counter.value).isSome

theorem tells_iff_fits (parts : Parts) (kind : EventKind) :
    (∃ event, parts.Tells kind event) ↔ parts.Fits := by
  constructor
  · rintro ⟨event, tells⟩
    obtain ⟨entries, reads, _⟩ := tells.statistics
    refine ⟨Option.isSome_of_eq_some tells.id, fun item listed some => ?_, fun counter listed => ?_⟩
    · have kept : item ∈ (parts.parents.splitOn ',').filter (!·.isEmpty) :=
        List.mem_filter.mpr ⟨listed, by simpa using some⟩
      obtain ⟨id, read⟩ := (exists_forall_iff _ _).mp ⟨event.parents, tells.parents⟩ item kept
      exact Option.isSome_of_eq_some read
    · obtain ⟨entry, _, read⟩ := (exists_forall_iff _ _).mp ⟨entries, reads⟩ counter listed
      exact Option.isSome_of_eq_some read
  · intro fits
    obtain ⟨id, number⟩ := Option.isSome_iff_exists.mp fits.number
    obtain ⟨ids, parents⟩ := (exists_forall_iff (fun item id => word64? item = some id)
      ((parts.parents.splitOn ',').filter (!·.isEmpty))).mpr fun item mem => by
        obtain ⟨listed, some⟩ := List.mem_filter.mp mem
        exact Option.isSome_iff_exists.mp (fits.parents item listed (by simpa using some))
    obtain ⟨entries, counters⟩ := (exists_forall_iff Statistics.Counter.Reads
      parts.counters).mpr fun counter mem => by
        obtain ⟨value, read⟩ := Option.isSome_iff_exists.mp (fits.counters counter mem)
        exact ⟨(_, value), rfl, read⟩
    exact ⟨⟨kind, id, _, _, ids, .ofList entries compare⟩,
      ⟨rfl, number, rfl, rfl, parents, entries, counters, rfl⟩⟩

/-- The clause ends at the last bracket after a blank in the first line. -/
def EndsLast (parts : Parts) : Prop :=
  (splitLast? [' ', '['] (parts.body.takeWhile (· ≠ '\n'))).map Prod.fst = some parts.clause

theorem body_of_found {body clause opened : List Char}
    (found : splitLast? [' ', '['] (body.takeWhile (· ≠ '\n')) = some (clause, opened)) :
    body = clause ++ [' ', '['] ++ (opened ++ body.dropWhile (· ≠ '\n')) := by
  rw [← List.append_assoc, ← split_last_append _ _ _ _ found, List.takeWhile_append_dropWhile]

theorem inner_of_last {parts : Parts} {clause opened : List Char}
    (found : splitLast? [' ', '['] (parts.body.takeWhile (· ≠ '\n')) = some (clause, opened))
    (last : parts.EndsLast) : clause = parts.clause ∧
      opened ++ parts.body.dropWhile (· ≠ '\n') = parts.rule ++ parts.parents := by
  rw [EndsLast, found] at last
  obtain rfl : clause = parts.clause := Option.some.inj last
  exact ⟨rfl, List.append_cancel_left (body_of_found found).symm⟩

section Formed
variable {parts other : Parts} (formed : parts.Formed)
include formed

theorem number_cut (rest : List Char) :
    (parts.number ++ (['.', ' '] ++ rest)).takeWhile isDigit = parts.number ∧
    (parts.number ++ (['.', ' '] ++ rest)).dropWhile isDigit = ['.', ' '] ++ rest := by
  have dot : isDigit '.' = false := by decide
  rw [List.takeWhile_append_of_pos formed.number.2, List.dropWhile_append_of_pos formed.number.2]
  simp [dot]

theorem inner_cut :
    (parts.rule ++ parts.parents).takeWhile (!isDigit ·) = parts.rule ∧
    (parts.rule ++ parts.parents).dropWhile (!isDigit ·) = parts.parents := by
  have rule : ∀ c ∈ parts.rule, (!isDigit c) = true := by simpa using formed.rule
  have start := formed.parents_start
  rw [List.takeWhile_append_of_pos rule, List.dropWhile_append_of_pos rule]
  cases parents : parts.parents with
  | nil => simp
  | cons c rest =>
    have digit : isDigit c := start c (by simp [parents])
    simp [digit]

theorem body_cut : splitLast? [']'] (parts.body ++ [']'] ++ Statistics.written parts.counters) =
    some (parts.body, Statistics.written parts.counters) :=
  split_last_char (Statistics.bracket_not_written formed.counters)

theorem first_line : parts.body.takeWhile (· ≠ '\n') =
    parts.clause ++ [' ', '['] ++ (parts.rule ++ parts.parents).takeWhile (· ≠ '\n') := by
  have one : ∀ c ∈ parts.clause ++ [' ', '['], decide (c ≠ '\n') = true := by
    intro c mem
    refine decide_eq_true fun same => ?_
    subst c
    simp [formed.clause] at mem
  exact List.takeWhile_append_of_pos one

theorem of_text_iff (last : parts.EndsLast) (kind : EventKind) (event : Event) :
    ofClause? kind parts.text = some event ↔ parts.Tells kind event := by
  obtain ⟨number, rest⟩ := number_cut formed
    (parts.body ++ [']'] ++ Statistics.written parts.counters)
  obtain ⟨rule, parents⟩ := inner_cut formed
  obtain ⟨⟨clause, opened⟩, found, _⟩ := Option.map_eq_some_iff.mp last
  obtain ⟨rfl, inner⟩ := inner_of_last found last
  have dot (after : List Char) : ['.', ' '].isPrefixOf? (['.', ' '] ++ after) = some after :=
    List.isPrefixOf?_eq_some_iff_append_eq.mpr rfl
  simp only [ofClause?, text, number, rest, dot, body_cut formed, found, inner, rule,
    parents, Option.bind_eq_bind, Option.bind_some, Option.bind_eq_some_iff, Option.some.injEq,
    parents?, map_m_some_iff, Statistics.of_written_iff formed.counters]
  constructor
  · rintro ⟨id, id_read, ids, ids_read, statistics, entries, rfl⟩
    exact ⟨rfl, id_read, rfl, rfl, ids_read, entries⟩
  · intro tells
    refine ⟨event.id, tells.id, event.parents, tells.parents, event.statistics,
      tells.statistics, ?_⟩
    rw [← tells.clause, ← tells.rule, ← tells.kind]

end Formed

def cut (number body clause opened : List Char) (counters : List Statistics.Counter) : Parts :=
  let inner := opened ++ body.dropWhile (· ≠ '\n')
  { number, clause, counters
    rule := inner.takeWhile (!isDigit ·)
    parents := inner.dropWhile (!isDigit ·) }

section Cut
variable {number body clause opened : List Char} {counters : List Statistics.Counter}
  (found : splitLast? [' ', '['] (body.takeWhile (· ≠ '\n')) = some (clause, opened))
include found

theorem cut_body : (cut number body clause opened counters).body = body := by
  rw [Parts.body, cut, List.takeWhile_append_dropWhile]
  exact (body_of_found found).symm

theorem cut_ends_last : (cut number body clause opened counters).EndsLast := by
  rw [EndsLast, cut_body found, found]
  rfl

theorem cut_formed (digits : number ≠ [] ∧ ∀ c ∈ number, isDigit c)
    (all : ∀ counter ∈ counters, counter.Formed)
    (listed : ∀ c ∈ (cut number body clause opened counters).parents, isDigit c ∨ c = ',') :
    (cut number body clause opened counters).Formed where
  number := digits
  clause mem := by
    have line := split_last_append _ _ _ _ found
    have inside : '\n' ∈ body.takeWhile (· ≠ '\n') := by
      rw [line]
      exact List.mem_append_left _ (List.mem_append_left _ mem)
    simpa using List.mem_takeWhile_imp inside
  rule c mem := by simpa using List.mem_takeWhile_imp mem
  parents := listed
  parents_start c start := by
    have stop := List.head?_dropWhile_not (!isDigit ·) (opened ++ body.dropWhile (· ≠ '\n'))
    have here : ((opened ++ body.dropWhile (· ≠ '\n')).dropWhile (!isDigit ·)).head? = some c :=
      start
    rw [here] at stop
    simpa using stop
  counters := all

end Cut

theorem parents_characters {text : List Char} {ids : List ClauseId}
    (read : parents? text = some ids) : ∀ c ∈ text, isDigit c ∨ c = ',' := by
  intro c mem
  rw [parents?, map_m_some_iff] at read
  have joined : [','].intercalate (text.splitOn ',') = text := List.intercalate_splitOn ','
  rw [← joined] at mem
  rcases mem_intercalate mem with same | ⟨item, listed, inside⟩
  · exact .inr same
  · have kept : item ∈ (text.splitOn ',').filter (!·.isEmpty) := by
      refine List.mem_filter.mpr ⟨listed, ?_⟩
      cases item with
      | nil => cases inside
      | cons _ _ => rfl
    obtain ⟨id, number⟩ := (exists_forall_iff _ _).mp ⟨ids, read⟩ item kept
    exact .inl ((word64_digits number).2 c inside)

theorem parts_of_read {kind : EventKind} {text : List Char} {event : Event}
    (read : ofClause? kind text = some event) :
    ∃ parts : Parts, parts.Formed ∧ parts.EndsLast ∧ text = parts.text := by
  simp only [ofClause?, Option.bind_eq_bind, Option.bind_eq_some_iff] at read
  obtain ⟨id, number, rest, dot, ⟨body, tail⟩, bracket, ⟨clause, opened⟩, found, ids, parents,
    statistics, block, _⟩ := read
  obtain ⟨counters, all, rfl : tail = _⟩ := Statistics.written_of_tail block
  refine ⟨cut (text.takeWhile isDigit) body clause opened counters, ?_, cut_ends_last found, ?_⟩
  · refine cut_formed found ?_ all (parents_characters parents)
    exact ⟨(word64_digits number).1, fun c => List.mem_takeWhile_imp⟩
  · calc text
        = text.takeWhile isDigit ++ text.dropWhile isDigit := List.takeWhile_append_dropWhile.symm
      _ = text.takeWhile isDigit ++ (['.', ' '] ++ rest) := by
        rw [List.append_eq_of_isPrefixOf?_eq_some dot]
      _ = (cut (text.takeWhile isDigit) body clause opened counters).text := by
        rw [split_last_append _ _ _ _ bracket, Parts.text, cut_body found]
        rfl

section Same
variable {parts other : Parts} (formed : parts.Formed) (other_formed : other.Formed)
  (same : parts.text = other.text)
include formed other_formed same

/-- Only the place where the clause ends is left open by the text. -/
theorem same_text : parts.number = other.number ∧ parts.body = other.body ∧
    parts.counters = other.counters := by
  obtain ⟨number, rest⟩ := number_cut formed
    (parts.body ++ [']'] ++ Statistics.written parts.counters)
  obtain ⟨other_number, other_rest⟩ := number_cut other_formed
    (other.body ++ [']'] ++ Statistics.written other.counters)
  have numbers : parts.number = other.number := by
    rw [← number, ← other_number]
    exact congrArg (List.takeWhile isDigit) same
  have rests : parts.body ++ [']'] ++ Statistics.written parts.counters =
      other.body ++ [']'] ++ Statistics.written other.counters := by
    rw [text, text, numbers] at same
    exact List.append_cancel_left (List.append_cancel_left same)
  have cuts := (body_cut formed).symm.trans ((congrArg _ rests).trans (body_cut other_formed))
  obtain ⟨bodies, tails⟩ := Prod.mk.inj (Option.some.inj cuts)
  exact ⟨numbers, bodies,
    Statistics.written_injective formed.counters other_formed.counters tails⟩

theorem clause_longest (last : parts.EndsLast) : other.clause.length ≤ parts.clause.length := by
  obtain ⟨_, bodies, _⟩ := same_text formed other_formed same
  obtain ⟨⟨clause, opened⟩, found, ends⟩ := Option.map_eq_some_iff.mp last
  obtain rfl : clause = parts.clause := ends
  have line := first_line other_formed
  rw [← bodies] at line
  exact split_last_is_last _ _ _ _ (by simp) found _ _ line

theorem parts_ext (equal : parts.clause.length = other.clause.length) : parts = other := by
  obtain ⟨numbers, bodies, counters⟩ := same_text formed other_formed same
  rw [body, body, List.append_assoc, List.append_assoc] at bodies
  obtain ⟨clauses, opened⟩ := List.append_inj bodies equal
  have inner := List.append_cancel_left opened
  obtain ⟨rule, parents⟩ := inner_cut formed
  obtain ⟨other_rule, other_parents⟩ := inner_cut other_formed
  have rules : parts.rule = other.rule := by rw [← rule, ← other_rule, inner]
  have parents_same : parts.parents = other.parents := by rw [← parents, ← other_parents, inner]
  cases parts
  cases other
  simp_all

end Same

/-- Parts can be cut again at the last bracket: the parents only lose what comes first. -/
theorem exists_ends_last {parts : Parts} (formed : parts.Formed) :
    ∃ last : Parts, last.Formed ∧ last.EndsLast ∧ last.text = parts.text := by
  have occurs := split_last_of_occurrence [' ', '['] parts.clause
    ((parts.rule ++ parts.parents).takeWhile (· ≠ '\n')) (by simp)
  rw [← first_line formed] at occurs
  obtain ⟨⟨clause, opened⟩, found⟩ := Option.isSome_iff_exists.mp occurs
  have longer := split_last_is_last _ _ _ _ (by simp) found _ _ (first_line formed)
  let last := cut parts.number parts.body clause opened parts.counters
  have whole : last.body = parts.body := cut_body found
  refine ⟨last, cut_formed found formed.number formed.counters ?_, cut_ends_last found, ?_⟩
  · intro c mem
    refine formed.parents c ?_
    rw [← (inner_cut formed).2]
    exact mem_drop_while_of_suffix (suffix_of_longer (body_of_found found).symm longer) _ c mem
  · rw [text, text, whole]
    rfl

end Parts

structure Split (line : List Char) where
  form : Form
  kind : EventKind
  header : List Char
  parts : Parts
  headed : Header form kind header
  formed : parts.Formed
  whole : line = header ++ parts.text

namespace Split
variable {line : List Char}

def IsLongest (split : Split line) : Prop :=
  ∀ other : Split line, other.parts.clause.length ≤ split.parts.clause.length

theorem header_read (split : Split line) : header? line = some (split.kind, split.parts.text) := by
  have digit : (split.parts.text.head?.map isDigit).getD false = true := by
    obtain ⟨some, digits⟩ := split.formed.number
    cases number : split.parts.number with
    | nil => exact absurd number some
    | cons c number =>
      have here : isDigit c := digits c (by simp [number])
      simp [Parts.text, number, here]
  exact (congrArg header? split.whole).trans (read_header split.headed digit)

theorem same_header (one other : Split line) : one.form = other.form ∧ one.kind = other.kind ∧
    one.header = other.header ∧ one.parts.text = other.parts.text := by
  have read := one.header_read.symm.trans other.header_read
  obtain ⟨kinds, texts⟩ := Prod.mk.inj (Option.some.inj read)
  have whole := one.whole.symm.trans other.whole
  rw [texts] at whole
  have headers := List.append_cancel_right whole
  refine ⟨?_, kinds, headers, texts⟩
  rw [form_of_header one.headed, form_of_header other.headed, kinds, headers]

theorem longest_of_ends_last (split : Split line) (last : split.parts.EndsLast) :
    split.IsLongest := fun other =>
  Parts.clause_longest split.formed other.formed (same_header split other).2.2.2 last

theorem exists_longest (split : Split line) :
    ∃ longest : Split line, longest.IsLongest ∧ longest.parts.EndsLast := by
  obtain ⟨parts, formed, last, same⟩ := Parts.exists_ends_last split.formed
  let longest : Split line :=
    { split with parts, formed, whole := by rw [same, ← split.whole] }
  exact ⟨longest, longest.longest_of_ends_last last, last⟩

theorem longest_unique {one other : Split line} (longest : one.IsLongest)
    (other_longest : other.IsLongest) : one = other := by
  obtain ⟨forms, kinds, headers, texts⟩ := same_header one other
  have parts := Parts.parts_ext one.formed other.formed texts
    (Nat.le_antisymm (other_longest one) (longest other))
  cases one
  cases other
  simp_all

theorem ends_last_of_longest {split : Split line} (longest : split.IsLongest) :
    split.parts.EndsLast := by
  obtain ⟨same, other_longest, last⟩ := split.exists_longest
  obtain rfl := longest_unique longest other_longest
  exact last

end Split

theorem line_read_iff (line : List Char) (event : Event) : ofLine? line = some event ↔
    ∃ split : Split line, split.IsLongest ∧ split.parts.Tells split.kind event := by
  constructor
  · intro read
    obtain ⟨⟨kind, text⟩, start, clause_read⟩ := Option.bind_eq_some_iff.mp read
    obtain ⟨form, header, headed, whole⟩ := header_of_read start
    obtain ⟨parts, formed, last, rfl⟩ := Parts.parts_of_read clause_read
    let split : Split line := ⟨form, kind, header, parts, headed, formed, whole⟩
    have tells := (Parts.of_text_iff formed last kind event).mp clause_read
    exact ⟨split, split.longest_of_ends_last last, tells⟩
  · rintro ⟨split, longest, tells⟩
    refine Option.bind_eq_some_iff.mpr ⟨_, split.header_read, ?_⟩
    exact (Parts.of_text_iff split.formed (Split.ends_last_of_longest longest) _ _).mpr tells

/-- All splits of a line have the same header, and just one of them has the longest clause. The line
is read just if the numbers of that one fit in 64 bits, and then as the event that it tells of. -/
theorem line_grammar (line : List Char) :
    (∀ one other : Split line, one.form = other.form ∧ one.kind = other.kind ∧
      one.header = other.header) ∧
    (∀ one other : Split line, one.IsLongest → other.IsLongest → one = other) ∧
    (Nonempty (Split line) → ∃ split : Split line, split.IsLongest) ∧
    ((ofLine? line).isSome ↔ ∃ split : Split line, split.IsLongest ∧ split.parts.Fits) ∧
    ∀ event, ofLine? line = some event ↔
      ∃ split : Split line, split.IsLongest ∧ split.parts.Tells split.kind event := by
  have reads := line_read_iff line
  refine ⟨fun one other => ?_, fun _ _ => Split.longest_unique, fun ⟨split⟩ => ?_, ?_, reads⟩
  · obtain ⟨forms, kinds, headers, _⟩ := one.same_header other
    exact ⟨forms, kinds, headers⟩
  · obtain ⟨longest, is, _⟩ := split.exists_longest
    exact ⟨longest, is⟩
  · simp only [Option.isSome_iff_exists, reads]
    rw [exists_comm]
    exact exists_congr fun split =>
      exists_and_left.trans (and_congr_right fun _ => split.parts.tells_iff_fits split.kind)

def annotatedLine : List Char := "[SA] new: 7. 'p' [q 1] | r  [resolution 3,,5] {a:0,w:2}".toList

theorem annotated_line_read : ∃ split : Split annotatedLine, split.IsLongest ∧
    split.parts.Tells split.kind
      ⟨.new, 7, "p [q 1] | r", "resolution", [3, 5], .ofList [("a", 0), ("w", 2)] compare⟩ :=
  ((line_grammar annotatedLine).2.2.2.2 _).mp (by decide +kernel)

end Event
end DerivationReplay
