import DerivationReplay.Event.Statistics
import DerivationReplay.Text.Split
import Mathlib.Data.List.Forall2

/-!
Statistics as they are written. A block is read counter by counter, and no other text is read: what
is read has been written by some counters, and by no others.
-/
namespace DerivationReplay
namespace Text

theorem word64_digits {digits : List Char} {word : UInt64} (read : word64? digits = some word) :
    digits ≠ [] ∧ ∀ c ∈ digits, isDigit c := by
  obtain ⟨value, number, _⟩ := Option.bind_eq_some_iff.mp read
  refine ⟨fun empty => ?_, fun c mem => ?_⟩
  · subst empty
    cases number
  · exact ascii_digit_is_digit c (natural_all_digits digits value number c mem)

theorem map_m_some_iff {α β : Type} (read : α → Option β) (items : List α) (values : List β) :
    items.mapM read = some values ↔ List.Forall₂ (fun item value => read item = some value)
      items values := by
  induction items generalizing values with
  | nil => simp [eq_comm]
  | cons item items ih =>
    simp only [List.mapM_cons, bind, Option.bind_eq_some_iff, ih, pure, Option.some.injEq,
      List.forall₂_cons_left_iff]
    constructor
    · rintro ⟨value, first, rest, others, rfl⟩
      exact ⟨value, rest, first, others, rfl⟩
    · rintro ⟨value, rest, first, others, rfl⟩
      exact ⟨value, first, rest, others, rfl⟩

theorem exists_forall_iff {α β : Type} (relation : α → β → Prop) (items : List α) :
    (∃ values, List.Forall₂ relation items values) ↔
      ∀ item ∈ items, ∃ value, relation item value := by
  induction items with
  | nil => simp
  | cons item items ih =>
    simp only [List.forall₂_cons_left_iff, List.forall_mem_cons, ← ih]
    constructor
    · rintro ⟨_, value, rest, first, others, rfl⟩
      exact ⟨⟨value, first⟩, rest, others⟩
    · rintro ⟨⟨value, first⟩, rest, others⟩
      exact ⟨value :: rest, value, rest, first, others, rfl⟩

theorem mem_intercalate {c comma : Char} {pieces : List (List Char)}
    (mem : c ∈ [comma].intercalate pieces) : c = comma ∨ ∃ piece ∈ pieces, c ∈ piece := by
  induction pieces with
  | nil => cases mem
  | cons piece pieces ih =>
    by_cases last : pieces = []
    · subst last
      exact .inr ⟨piece, List.mem_cons_self, by simpa using mem⟩
    · rw [List.intercalate_cons_of_ne_nil last, List.mem_append, List.mem_append,
        List.mem_singleton] at mem
      rcases mem with (here | same) | later
      · exact .inr ⟨piece, List.mem_cons_self, here⟩
      · exact .inl same
      · refine (ih later).imp_right ?_
        rintro ⟨other, listed, inside⟩
        exact ⟨other, List.mem_cons_of_mem _ listed, inside⟩

end Text

namespace Statistics
open Text

structure Counter where
  key : List Char
  value : List Char

namespace Counter

def text (counter : Counter) : List Char := counter.key ++ ':' :: counter.value

def ofText (text : List Char) : Counter :=
  ⟨text.takeWhile (· ≠ ':'), (text.dropWhile (· ≠ ':')).tail⟩

/-- The key is a small letter and word characters, the value is digits. -/
structure Formed (counter : Counter) : Prop where
  key : ∃ first rest, counter.key = first :: rest ∧ 'a' ≤ first ∧ first ≤ 'z' ∧
    ∀ c ∈ rest, isWordCharacter c
  value : counter.value ≠ [] ∧ ∀ c ∈ counter.value, isDigit c

def Reads (counter : Counter) (entry : String × UInt64) : Prop :=
  entry.1 = String.ofList counter.key ∧ word64? counter.value = some entry.2

end Counter

def written (counters : List Counter) : List Char :=
  if counters = [] then []
  else [' ', '{'] ++ [','].intercalate (counters.map Counter.text) ++ ['}']

theorem is_key_iff (key : List Char) : isKey key ↔ ∃ first rest, key = first :: rest ∧
    'a' ≤ first ∧ first ≤ 'z' ∧ ∀ c ∈ rest, isWordCharacter c := by
  cases key with
  | nil => simp [isKey]
  | cons first rest => simp [isKey, and_assoc]

theorem entry_of_text_iff (text : List Char) (entry : String × UInt64) :
    entry? text = some entry ↔
      isKey (Counter.ofText text).key ∧ (Counter.ofText text).Reads entry := by
  simp only [ entry?, Option.bind_eq_bind, Option.bind_eq_some_iff, Counter.Reads]
  constructor
  · rintro ⟨value, read, kept⟩
    split at kept
    · cases kept
      exact ⟨‹_›, rfl, read⟩
    · cases kept
  · rintro ⟨key, name, read⟩
    exact ⟨entry.2, read, (if_pos key).trans (congrArg some (Prod.ext name.symm rfl))⟩

section Formed
variable {counter : Counter} (formed : counter.Formed)
include formed

theorem key_characters : ∀ c ∈ counter.key, isWordCharacter c := by
  obtain ⟨first, rest, key, low, high, word⟩ := formed.key
  intro c mem
  rw [key] at mem
  rcases List.mem_cons.mp mem with rfl | mem
  · exact word_character_of_range c (0x61, 0x7a) (.tail _ (.tail _ (.tail _ (.head _)))) ⟨low, high⟩
  · exact word c mem

theorem not_in_counter {c : Char} (word : isWordCharacter c = false) (digit : isDigit c = false)
    (colon : c ≠ ':') : c ∉ counter.text := by
  intro mem
  rcases List.mem_append.mp mem with mem | mem
  · exact absurd (key_characters formed c mem) (by simp [word])
  · rcases List.mem_cons.mp mem with same | mem
    · exact colon same
    · exact absurd (formed.value.2 c mem) (by simp [digit])

theorem key_before_colon : ∀ c ∈ counter.key, decide (c ≠ ':') = true := by
  have colon : isWordCharacter ':' = false := by decide +kernel
  intro c mem
  refine decide_eq_true fun same => ?_
  exact absurd (key_characters formed c mem) (by simp [same, colon])

theorem key_of_text (rest : List Char) :
    (counter.text ++ rest).takeWhile (· ≠ ':') = counter.key := by
  rw [Counter.text, List.append_assoc, List.takeWhile_append_of_pos (key_before_colon formed)]
  simp

theorem of_text_text : Counter.ofText counter.text = counter := by
  have before := key_before_colon formed
  rw [Counter.ofText, Counter.text, List.takeWhile_append_of_pos before,
    List.dropWhile_append_of_pos before]
  simp

theorem entry_some_iff (entry : String × UInt64) :
    entry? counter.text = some entry ↔ counter.Reads entry := by
  have key := (is_key_iff _).mpr formed.key
  rw [entry_of_text_iff, of_text_text formed]
  exact and_iff_right key

end Formed

theorem counter_of_entry {text : List Char} {entry : String × UInt64}
    (read : entry? text = some entry) :
    ∃ counter : Counter, counter.Formed ∧ counter.text = text := by
  obtain ⟨key, _, number⟩ := (entry_of_text_iff text entry).mp read
  obtain ⟨some, digits⟩ := word64_digits number
  refine ⟨.ofText text, ⟨(is_key_iff _).mp key, some, digits⟩, ?_⟩
  have colon := List.head?_dropWhile_not (· ≠ ':') text
  have whole := List.takeWhile_append_dropWhile (p := (· ≠ ':')) (l := text)
  unfold Counter.ofText Counter.text
  cases after : text.dropWhile (· ≠ ':') with
  | nil => exact absurd (congrArg List.tail after) some
  | cons c rest =>
    rw [after] at colon whole
    obtain rfl : c = ':' := by simpa using colon
    exact whole

theorem counters_of_entries {items : List (List Char)} {entries : List (String × UInt64)}
    (read : items.mapM entry? = some entries) :
    ∃ counters : List Counter, (∀ counter ∈ counters, counter.Formed) ∧
      counters.map Counter.text = items := by
  rw [map_m_some_iff] at read
  induction read with
  | nil => exact ⟨[], by simp⟩
  | cons first _ ih =>
    obtain ⟨counter, formed, text⟩ := counter_of_entry first
    obtain ⟨counters, all, texts⟩ := ih
    exact ⟨counter :: counters, by simpa using ⟨formed, all⟩, by simp [text, texts]⟩

section Block
variable {counters : List Counter} (formed : ∀ counter ∈ counters, counter.Formed)
include formed

theorem bracket_not_written : ']' ∉ written counters := by
  have apart : ∀ counter ∈ counters, ']' ∉ counter.text := fun counter mem =>
    not_in_counter (formed counter mem) (by decide +kernel) (by decide) (by decide)
  have inside : ']' ∉ [','].intercalate (counters.map Counter.text) := by
    intro mem
    rcases mem_intercalate mem with same | ⟨text, listed, mem⟩
    · cases same
    · obtain ⟨counter, known, rfl⟩ := List.mem_map.mp listed
      exact apart counter known mem
  unfold written
  split
  · simp
  · simpa using inside

theorem split_written (some : counters ≠ []) :
    (([','].intercalate (counters.map Counter.text)).splitOn ',') = counters.map Counter.text := by
  refine List.splitOn_intercalate ',' (fun text mem => ?_) (by simpa using some)
  obtain ⟨counter, listed, rfl⟩ := List.mem_map.mp mem
  exact not_in_counter (formed counter listed) (by decide +kernel) (by decide) (by decide)

theorem entries_some_iff (entries : List (String × UInt64)) :
    (counters.map Counter.text).mapM entry? = some entries ↔
      List.Forall₂ Counter.Reads counters entries := by
  rw [map_m_some_iff, List.forall₂_map_left_iff]
  induction counters generalizing entries with
  | nil => simp
  | cons counter counters ih =>
    simp only [List.forall₂_cons_left_iff, ih fun other mem => formed other (.tail _ mem),
      entry_some_iff (formed counter List.mem_cons_self)]

theorem of_written_iff (statistics : Statistics) : ofTail? (written counters) = some statistics ↔
    ∃ entries, List.Forall₂ Counter.Reads counters entries ∧
      statistics = Std.ExtTreeMap.ofList entries compare := by
  unfold written
  split
  · subst counters
    simp [ofTail?, eq_comm]
  · rename_i some
    have opened : [' ', '{'].isPrefixOf?
        ([' ', '{'] ++ [','].intercalate (counters.map Counter.text) ++ ['}']) =
          .some ([','].intercalate (counters.map Counter.text) ++ ['}']) := by
      rw [List.append_assoc]
      exact List.isPrefixOf?_eq_some_iff_append_eq.mpr rfl
    rw [ofTail?, if_neg (by simp), opened]
    simp only [Option.bind_eq_bind, Option.bind_some, List.getLast?_concat, if_true,
      List.dropLast_concat, ofEntries?, split_written formed some, Option.map_eq_some_iff,
      entries_some_iff formed]
    exact exists_congr fun entries => and_congr_right fun _ => eq_comm

end Block

theorem written_of_tail {text : List Char} {statistics : Statistics}
    (read : ofTail? text = some statistics) :
    ∃ counters, (∀ counter ∈ counters, counter.Formed) ∧ text = written counters := by
  unfold ofTail? at read
  split at read
  · exact ⟨[], by simp, by simpa [written] using ‹text.isEmpty = true›⟩
  · simp only [Option.bind_eq_bind, Option.bind_eq_some_iff] at read
    obtain ⟨opened, start, read⟩ := read
    split at read
    · rename_i last
      obtain ⟨entries, read, _⟩ := Option.map_eq_some_iff.mp read
      obtain ⟨counters, formed, items⟩ := counters_of_entries read
      have some : counters ≠ [] := by
        rintro rfl
        exact List.splitOn_ne_nil _ _ items.symm
      refine ⟨counters, formed, ?_⟩
      rw [written, if_neg some, items, List.intercalate_splitOn, List.append_assoc,
        List.dropLast_append_getLast? _ last]
      exact (List.append_eq_of_isPrefixOf?_eq_some start).symm
    · cases read

theorem counters_of_texts {counters : List Counter}
    (formed : ∀ counter ∈ counters, counter.Formed) :
    (counters.map Counter.text).map Counter.ofText = counters := by
  rw [List.map_map]
  calc counters.map (Counter.ofText ∘ Counter.text)
      = counters.map id := List.map_congr_left fun counter mem => of_text_text (formed counter mem)
    _ = counters := List.map_id counters

theorem written_injective {one other : List Counter} (formed : ∀ counter ∈ one, counter.Formed)
    (other_formed : ∀ counter ∈ other, counter.Formed) (same : written one = written other) :
    one = other := by
  unfold written at same
  split at same <;> split at same
  · subst one other
    rfl
  · cases same
  · cases same
  · have inside := List.append_cancel_left (List.append_cancel_right same)
    rw [← counters_of_texts formed, ← counters_of_texts other_formed,
      ← split_written formed ‹_›, ← split_written other_formed ‹_›, inside]

end Statistics
end DerivationReplay
