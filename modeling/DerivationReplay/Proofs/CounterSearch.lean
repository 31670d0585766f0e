import DerivationReplay.Proofs.Grammar

/-!
Statistics that are searched for. Instead of cutting a block at its commas and colons, one may look
for counters in it from left to right, wherever they stand. In a block both come to the same: no
counter starts before the next one that is written, and none goes on beyond its end.
-/
namespace DerivationReplay.Statistics
open Text

structure Occurs (text before : List Char) (counter : Counter) (after : List Char) : Prop where
  formed : counter.Formed
  whole : text = before ++ (counter.text ++ after)

/-- The counter that a search from left to right comes to first: none starts further left, and from
the same place on no longer key and, with the same key, no longer value can be read. -/
structure OccursFirst (text before : List Char) (counter : Counter) (after : List Char) : Prop where
  here : Occurs text before counter after
  leftmost : ∀ start other rest, Occurs text start other rest → before.length ≤ start.length
  longest_key : ∀ other rest, Occurs text before other rest →
    other.key.length ≤ counter.key.length
  longest_value : ∀ other rest, Occurs text before other rest → other.key = counter.key →
    other.value.length ≤ counter.value.length

/-- The counters that the search finds, each in the text behind the one before. -/
inductive Found : List Char → List Counter → Prop
  | nothing {text : List Char}
      (absent : ∀ before counter after, ¬ Occurs text before counter after) : Found text []
  | next {text before after : List Char} {counter : Counter} {counters : List Counter}
      (first : OccursFirst text before counter after) (rest : Found after counters) :
      Found text (counter :: counters)

theorem first_unique {text before after start rest : List Char} {counter other : Counter}
    (first : OccursFirst text before counter after) (second : OccursFirst text start other rest) :
    counter = other ∧ after = rest := by
  have place : before.length = start.length := Nat.le_antisymm
    (first.leftmost _ _ _ second.here) (second.leftmost _ _ _ first.here)
  obtain ⟨rfl, tails⟩ := List.append_inj (first.here.whole.symm.trans second.here.whole) place
  have keys : counter.key.length = other.key.length := Nat.le_antisymm
    (second.longest_key _ _ first.here) (first.longest_key _ _ second.here)
  rw [Counter.text, Counter.text, List.append_assoc, List.append_assoc] at tails
  obtain ⟨key, values⟩ := List.append_inj tails keys
  have lengths : counter.value.length = other.value.length := Nat.le_antisymm
    (second.longest_value _ _ first.here key) (first.longest_value _ _ second.here key.symm)
  obtain ⟨value, same⟩ := List.append_inj (List.cons.inj values).2 lengths
  cases counter
  cases other
  simp_all

theorem found_unique {text : List Char} {one other : List Counter} (found : Found text one)
    (again : Found text other) : one = other := by
  induction found generalizing other with
  | nothing absent =>
    cases again with
    | nothing => rfl
    | next first _ => exact absurd first.here (absent _ _ _)
  | next first _ ih =>
    cases again with
    | nothing absent => exact absurd first.here (absent _ _ _)
    | next second rest =>
      obtain ⟨rfl, rfl⟩ := first_unique first second
      rw [ih rest]

section Step
variable {counter : Counter} (formed : counter.Formed)
include formed

theorem counter_length : 3 ≤ counter.text.length := by
  obtain ⟨first, more, key, _⟩ := formed.key
  have value := List.length_pos_iff.mpr formed.value.1
  simp only [Counter.text, key, List.length_append, List.length_cons]
  omega

variable {mark : Char} {rest : List Char} (apart : ¬ ('a' ≤ mark ∧ mark ≤ 'z'))
  (stop : ∀ c ∈ rest.head?, isDigit c = false)

include stop in
theorem value_longest {digits behind : List Char} (digit : ∀ c ∈ digits, isDigit c)
    (same : counter.value ++ rest = digits ++ behind) : digits.length ≤ counter.value.length := by
  have value : (counter.value ++ rest).takeWhile isDigit = counter.value := by
    rw [List.takeWhile_append_of_pos formed.value.2]
    cases rest with
    | nil => simp
    | cons c rest => simp [stop c rfl]
  rw [← value, same, List.takeWhile_append_of_pos digit, List.length_append]
  exact Nat.le_add_right _ _

include apart stop in
theorem first_behind_mark :
    OccursFirst (mark :: (counter.text ++ rest)) [mark] counter rest where
  here := ⟨formed, rfl⟩
  leftmost := by
    intro start other behind occurs
    cases start with
    | nil =>
      -- A key starts with a small letter, so that no counter starts at the mark.
      obtain ⟨first, more, key, low, high, _⟩ := occurs.formed.key
      have whole := occurs.whole
      simp only [Counter.text, key, List.nil_append, List.cons_append, List.cons.injEq] at whole
      obtain ⟨rfl, _⟩ := whole
      exact absurd ⟨low, high⟩ apart
    | cons _ _ => simp
  longest_key := by
    intro other behind occurs
    have same : counter.text ++ rest = other.text ++ behind := (List.cons.inj occurs.whole).2
    rw [← key_of_text formed rest, same, key_of_text occurs.formed]
  longest_value := by
    intro other behind occurs key
    have same : counter.text ++ rest = other.text ++ behind := (List.cons.inj occurs.whole).2
    rw [Counter.text, Counter.text, key, List.append_assoc, List.append_assoc] at same
    have values := (List.cons.inj (List.append_cancel_left same)).2
    exact value_longest formed stop occurs.formed.value.2 values

end Step

theorem nothing_in_brace (before : List Char) (counter : Counter) (after : List Char) :
    ¬ Occurs ['}'] before counter after := by
  intro occurs
  have long := counter_length occurs.formed
  have short := congrArg List.length occurs.whole
  simp only [List.length_append, List.length_singleton] at short
  omega

/-- What is still to be searched of a block starts with the brace that opens it or with a comma. -/
theorem found_behind_mark {counters : List Counter}
    (formed : ∀ counter ∈ counters, counter.Formed) (some : counters ≠ []) {mark : Char}
    (apart : ¬ ('a' ≤ mark ∧ mark ≤ 'z')) :
    Found (mark :: ([','].intercalate (counters.map Counter.text) ++ ['}'])) counters := by
  have brace : isDigit '}' = false := by decide
  have comma : isDigit ',' = false := by decide
  have comma_apart : ¬ ('a' ≤ ',' ∧ ',' ≤ 'z') := by decide
  induction counters generalizing mark with
  | nil => exact absurd rfl some
  | cons counter counters ih =>
    have here := formed counter List.mem_cons_self
    cases counters with
    | nil =>
      rw [List.map_singleton, List.intercalate_singleton]
      exact .next (first_behind_mark here apart (by simp [brace])) (.nothing nothing_in_brace)
    | cons second counters =>
      have rest := ih (fun other mem => formed other (.tail _ mem)) (by simp) comma_apart
      rw [List.map_cons, List.intercalate_cons_of_ne_nil (by simp), List.append_assoc,
        List.append_assoc]
      exact .next (first_behind_mark here apart (by simp [comma])) rest

def block (counters : List Counter) : List Char :=
  '{' :: ([','].intercalate (counters.map Counter.text) ++ ['}'])

theorem written_block {counters : List Counter} (some : counters ≠ []) :
    written counters = ' ' :: block counters := by
  rw [written, if_neg some]
  rfl

theorem block_found_iff {counters : List Counter} (formed : ∀ counter ∈ counters, counter.Formed)
    (some : counters ≠ []) (found : List Counter) :
    Found (block counters) found ↔ found = counters := by
  have here : Found (block counters) counters := found_behind_mark formed some (by decide)
  constructor
  · exact fun other => found_unique other here
  · rintro rfl
    exact here

section Stored

def collect? (counters : List Counter) : Option Statistics :=
  (counters.mapM fun counter => (word64? counter.value).map (String.ofList counter.key, ·)).map
    (Std.ExtTreeMap.ofList · compare)

theorem reads_iff (counter : Counter) (entry : String × UInt64) :
    (word64? counter.value).map (String.ofList counter.key, ·) = some entry ↔
      counter.Reads entry := by
  rw [Option.map_eq_some_iff, Counter.Reads]
  constructor
  · rintro ⟨value, read, rfl⟩
    exact ⟨rfl, read⟩
  · rintro ⟨key, read⟩
    exact ⟨entry.2, read, Prod.ext key.symm rfl⟩

theorem collect_some_iff (counters : List Counter) (statistics : Statistics) :
    collect? counters = some statistics ↔ ∃ entries, List.Forall₂ Counter.Reads counters entries ∧
      statistics = Std.ExtTreeMap.ofList entries compare := by
  rw [collect?, Option.map_eq_some_iff]
  refine exists_congr fun entries => and_congr ?_ eq_comm
  simp only [map_m_some_iff, reads_iff]

def LastValue (counters : List Counter) (key : String) (value : UInt64) : Prop :=
  ∃ before counter after, counters = before ++ counter :: after ∧ counter.Reads (key, value) ∧
    ∀ later ∈ after, String.ofList later.key ≠ key

theorem last_value_cons (counter : Counter) (counters : List Counter) (key : String)
    (value : UInt64) : LastValue (counter :: counters) key value ↔ LastValue counters key value ∨
      counter.Reads (key, value) ∧ ∀ later ∈ counters, String.ofList later.key ≠ key := by
  constructor
  · rintro ⟨before, last, after, split, reads, others⟩
    cases before with
    | nil =>
      cases split
      exact .inr ⟨reads, others⟩
    | cons _ before =>
      cases split
      exact .inl ⟨before, last, after, rfl, reads, others⟩
  · rintro (⟨before, last, after, rfl, reads, others⟩ | ⟨reads, others⟩)
    · exact ⟨counter :: before, last, after, rfl, reads, others⟩
    · exact ⟨[], counter, counters, rfl, reads, others⟩

theorem stored_some_iff {counters : List Counter} {entries : List (String × UInt64)}
    (reads : List.Forall₂ Counter.Reads counters entries) (stored : Statistics) (key : String)
    (value : UInt64) :
    (entries.foldl (fun stored entry => stored.insert entry.1 entry.2) stored)[key]? = some value ↔
      LastValue counters key value ∨
        stored[key]? = some value ∧ ∀ counter ∈ counters, String.ofList counter.key ≠ key := by
  induction reads generalizing stored with
  | nil => simp [LastValue]
  | @cons counter entry counters entries read _ ih =>
    obtain ⟨name, number⟩ := read
    rw [List.foldl_cons, ih, last_value_cons, List.forall_mem_cons, or_assoc,
      Std.ExtTreeMap.getElem?_insert]
    refine or_congr_right ?_
    by_cases same : String.ofList counter.key = key
    · simp [Counter.Reads, same, name, number]
    · simp [Counter.Reads, same, name, Ne.symm same]

theorem stored_value_iff {counters : List Counter} {entries : List (String × UInt64)}
    (reads : List.Forall₂ Counter.Reads counters entries) (key : String) (value : UInt64) :
    (Std.ExtTreeMap.ofList entries compare)[key]? = some value ↔ LastValue counters key value := by
  rw [Std.ExtTreeMap.ofList_eq_foldl, stored_some_iff reads]
  simp

theorem stored_key_iff {counters : List Counter} {entries : List (String × UInt64)}
    (reads : List.Forall₂ Counter.Reads counters entries) (key : String) :
    key ∈ Std.ExtTreeMap.ofList entries compare ↔
      ∃ counter ∈ counters, String.ofList counter.key = key := by
  have names : entries.map Prod.fst = counters.map fun counter => String.ofList counter.key := by
    induction reads with
    | nil => rfl
    | cons read _ ih => rw [List.map_cons, List.map_cons, read.1, ih]
  simp [Std.ExtTreeMap.mem_ofList, names]

end Stored

theorem of_written_counters {counters : List Counter}
    (formed : ∀ counter ∈ counters, counter.Formed) :
    ofTail? (written counters) = collect? counters := by
  refine Option.ext fun statistics => ?_
  rw [of_written_iff formed, collect_some_iff]

end DerivationReplay.Statistics

namespace DerivationReplay.Event
open Text Statistics

theorem Parts.not_fits_iff (parts : Parts) : ¬ parts.Fits ↔ word64? parts.number = none ∨
    (∃ item ∈ parts.parents.splitOn ',', item ≠ [] ∧ word64? item = none) ∨
    ∃ counter ∈ parts.counters, word64? counter.value = none := by
  have fits_iff : parts.Fits ↔ (word64? parts.number).isSome ∧
      (∀ item ∈ parts.parents.splitOn ',', item ≠ [] → (word64? item).isSome) ∧
      ∀ counter ∈ parts.counters, (word64? counter.value).isSome :=
    ⟨fun ⟨number, parents, counters⟩ => ⟨number, parents, counters⟩,
      fun ⟨number, parents, counters⟩ => ⟨number, parents, counters⟩⟩
  simp only [fits_iff, not_and_or, not_forall, Option.not_isSome_iff_eq_none, exists_prop]

section Line
variable {line : List Char} {split : Split line} (longest : split.IsLongest)
include longest

theorem tells_of_read {event : Event} (read : ofLine? line = some event) :
    split.parts.Tells split.kind event := by
  obtain ⟨other, other_longest, tells⟩ := (line_read_iff line event).mp read
  obtain rfl := Split.longest_unique longest other_longest
  exact tells

theorem unread_iff : ofLine? line = none ↔ ¬ split.parts.Fits := by
  rw [← split.parts.tells_iff_fits split.kind, Option.eq_none_iff_forall_ne_some, not_exists]
  refine forall_congr' fun event => not_congr ⟨tells_of_read longest, fun tells => ?_⟩
  exact (line_read_iff line event).mpr ⟨split, longest, tells⟩

/-- A line with statistics ends with their block. A search through the block finds its counters one
after the other and nothing else, and what is stored for them is what the block is read as. The line
is read unless one of its numbers does not fit in 64 bits, and then each key has the value of the
last counter with this key. -/
theorem statistics_found (counted : split.parts.counters ≠ []) :
    (∃ front, line = front ++ ' ' :: block split.parts.counters) ∧
    (∀ found, Found (block split.parts.counters) found ↔ found = split.parts.counters) ∧
    Statistics.ofTail? (' ' :: block split.parts.counters) = collect? split.parts.counters ∧
    (ofLine? line = none ↔ word64? split.parts.number = none ∨
      (∃ item ∈ split.parts.parents.splitOn ',', item ≠ [] ∧ word64? item = none) ∨
      ∃ counter ∈ split.parts.counters, word64? counter.value = none) ∧
    ∀ event, ofLine? line = some event →
      (∀ key, key ∈ event.statistics ↔
        ∃ counter ∈ split.parts.counters, String.ofList counter.key = key) ∧
      ∀ key value, event.statistics[key]? = some value ↔
        LastValue split.parts.counters key value := by
  have formed := split.formed.counters
  refine ⟨?_, block_found_iff formed counted, ?_, ?_, fun event read => ?_⟩
  · refine ⟨split.header ++ (split.parts.number ++ (['.', ' '] ++ (split.parts.body ++ [']']))), ?_⟩
    rw [← written_block counted]
    exact split.whole.trans (by simp [Parts.text])
  · rw [← written_block counted]
    exact of_written_counters formed
  · rw [unread_iff longest, Parts.not_fits_iff]
  · obtain ⟨entries, reads, stored⟩ := (tells_of_read longest read).statistics
    rw [stored]
    exact ⟨stored_key_iff reads, stored_value_iff reads⟩

end Line

def countedLine : List Char := "[SA] active: 3. q [cnf 1,2] {a:1,wÄ0a:7,w:3,a:05}".toList

theorem counted_line_found : ∃ (split : Split countedLine) (event : Event),
    split.IsLongest ∧ split.parts.counters ≠ [] ∧ ofLine? countedLine = some event ∧
    Found (block split.parts.counters) split.parts.counters ∧
    (∃ counter ∈ split.parts.counters, String.ofList counter.key = "wÄ0a") ∧
    LastValue split.parts.counters "a" 5 := by
  let event : Event := ⟨.active, 3, "q", "cnf", [1, 2],
    .ofList [("a", 5), ("w", 3), ("wÄ0a", 7)] compare⟩
  have read : ofLine? countedLine = some event := by decide +kernel
  obtain ⟨split, longest, tells⟩ := (line_read_iff countedLine event).mp read
  have counted : split.parts.counters ≠ [] := by
    intro none
    obtain ⟨entries, reads, stored⟩ := tells.statistics
    rw [none, List.forall₂_nil_left_iff] at reads
    subst reads
    have key : "a" ∈ event.statistics := by decide +kernel
    rw [stored] at key
    simp at key
  obtain ⟨_, found, _, _, stored⟩ := statistics_found longest counted
  obtain ⟨keys, values⟩ := stored event read
  exact ⟨split, event, longest, counted, read, (found _).mpr rfl,
    (keys "wÄ0a").mp (by decide +kernel), (values "a" 5).mp (by decide +kernel)⟩

end DerivationReplay.Event
